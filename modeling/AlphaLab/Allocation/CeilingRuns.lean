/-
  What strategies commit of their ceilings, over runs of batches, fills and
  cancellations.

  * `CeilingCall` is what moves the ledgers, `ceilingStep` one call;
  * `UnreservedFits`: what a share deploys beyond its order's reservation is
    within what is left of the ceiling;
  * `ceilings_hold`: no run of fills that fit overcommits a strategy.
-/
import AlphaLab.Allocation.Batches

namespace AlphaLab

open Fallible

/-! ## Runs of the ledgers -/

/-- What moves the ledgers: a batch, a fill of an order, or the end of one. -/
inductive CeilingCall where
  | allocate (batch : AllocationInput)
  | fill (orderId assetId : String) (signedQuantity : Decimal) (notional : Option Decimal)
  | cancel (orderId : String)

def ceilingStep (s : AllocationState) : CeilingCall → Except LedgerRefusal AllocationState
  | .allocate batch => .ok (allocate s batch).1
  | .fill orderId assetId signedQuantity notional =>
    s.recordFill orderId assetId signedQuantity notional
  | .cancel orderId => .ok (s.retireContributions orderId)

/-- What a share deploys beyond what its order reserves for the strategy. -/
def unreserved (s : AllocationState) (orderId assetId : String) (part : String × Decimal)
    (unitValue : Decimal) : Decimal :=
  let deployed := StrategyCapital.deploys (s.positionOf part.1 assetId) part.2 unitValue
  deployed - min ((s.capitalOf part.1).reservedFor orderId) deployed

def freedCost (s : AllocationState) (assetId : String) (part : String × Decimal) : Decimal :=
  let cost := (s.capitalOf part.1).costOf assetId
  cost - StrategyCapital.keptCost cost (s.positionOf part.1 assetId) part.2

/-- **What a share deploys unreserved is within what is left of the ceiling**, and what
    the share itself frees. -/
def UnreservedFits (s : AllocationState) (orderId assetId : String) (unitValue : Decimal)
    (part : String × Decimal) : Prop :=
  ∀ ceiling, s.budget.strategyCeiling part.1 = some ceiling →
    unreserved s orderId assetId part unitValue ≤
      ceiling - (s.capitalOf part.1).committed + freedCost s assetId part

def CeilingCall.Fits (s : AllocationState) : CeilingCall → Prop
  | .fill orderId assetId signedQuantity notional =>
    signedQuantity ≠ 0 → ∀ parts unitValue,
      splitByContribution signedQuantity (s.contributionsFor orderId) positionPlaces = some parts →
      s.unitValueOf signedQuantity notional = some unitValue →
      ∀ part ∈ parts, UnreservedFits s orderId assetId unitValue part
  | .allocate _ | .cancel _ => True

instance (s : AllocationState) (orderId assetId : String) (unitValue : Decimal)
    (part : String × Decimal) : Decidable (UnreservedFits s orderId assetId unitValue part) :=
  match h : s.budget.strategyCeiling part.1 with
  | none => isTrue fun ceiling hceiling => by rw [h] at hceiling; cases hceiling
  | some ceiling => decidable_of_iff (unreserved s orderId assetId part unitValue ≤
      ceiling - (s.capitalOf part.1).committed + freedCost s assetId part)
      (by simp [UnreservedFits, h])

instance (s : AllocationState) (call : CeilingCall) : Decidable (call.Fits s) :=
  match call with
  | .fill orderId assetId signedQuantity notional =>
    match h : splitByContribution signedQuantity (s.contributionsFor orderId) positionPlaces,
      h' : s.unitValueOf signedQuantity notional with
    | none, _ => isTrue fun _ parts unitValue hparts => by rw [h] at hparts; cases hparts
    | _, none => isTrue fun _ parts unitValue _ hvalue => by rw [h'] at hvalue; cases hvalue
    | some parts, some unitValue => decidable_of_iff
        (signedQuantity ≠ 0 → ∀ part ∈ parts, UnreservedFits s orderId assetId unitValue part)
        (by simp [CeilingCall.Fits, h, h'])
  | .allocate _ | .cancel _ => isTrue trivial

def CeilingCall.Priced : CeilingCall → Prop
  | .fill _ _ _ notional => ∀ value, notional = some value → 0 ≤ value
  | .allocate _ | .cancel _ => True

def WithinCeilings (s : AllocationState) : Prop :=
  ∀ strategyId ceiling, s.budget.strategyCeiling strategyId = some ceiling →
    (s.capitalOf strategyId).committed ≤ ceiling

variable {orderId assetId : String}

variable {part : String × Decimal}

section
variable {s : AllocationState}

theorem capitalOf_bookShare (orderId assetId : String) (unitValue : Option Decimal)
    (part : String × Decimal) (i : String) :
    (s.bookShare orderId assetId unitValue part).capitalOf i =
      match unitValue, s.budget.strategyCeiling part.1 with
      | some value, some _ =>
        if i = part.1 then
          (s.capitalOf i).fill orderId assetId (s.positionOf i assetId) part.2 value
        else s.capitalOf i
      | _, _ => s.capitalOf i := by
  unfold AllocationState.bookShare
  cases unitValue with
  | none => rfl
  | some value =>
    cases s.budget.strategyCeiling part.1 with
    | none => rfl
    | some ceiling =>
      dsimp only
      rw [capitalOf_setCapital]
      split_ifs with hi
      · rw [hi]
      · rfl

theorem capitalOf_bookShare_of_ne (orderId assetId : String) (unitValue : Option Decimal)
    {i : String} (h : i ≠ part.1) :
    (s.bookShare orderId assetId unitValue part).capitalOf i = s.capitalOf i := by
  rw [capitalOf_bookShare]
  cases unitValue with
  | none => rfl
  | some value =>
    cases s.budget.strategyCeiling part.1 with
    | none => rfl
    | some ceiling => exact if_neg h

/-- Where the shares of a fill leave a strategy's capital: moved by its own, if it has
    one. -/
theorem capitalOf_bookShares (orderId assetId : String) (unitValue : Option Decimal)
    (parts : List (String × Decimal)) (hids : (parts.map Prod.fst).Nodup)
    (hrecorded : s.strategyPositions ≠ none) :
    (parts.foldl (fun s part => s.bookShare orderId assetId unitValue part) s).budget =
        s.budget ∧
      (∀ i, i ∉ parts.map Prod.fst →
        (parts.foldl (fun s part => s.bookShare orderId assetId unitValue part) s).capitalOf i =
          s.capitalOf i) ∧
      ∀ part ∈ parts,
        (parts.foldl (fun s part => s.bookShare orderId assetId unitValue part) s).capitalOf
            part.1 =
          (s.bookShare orderId assetId unitValue part).capitalOf part.1 := by
  induction parts generalizing s with
  | nil => simp
  | cons first parts ih =>
    rw [List.map_cons, List.nodup_cons] at hids
    have hfirst : (s.bookShare orderId assetId unitValue first).strategyPositions ≠ none :=
      bookShare_recorded _ _ _ _ hrecorded
    obtain ⟨hbudget, hothers, hparts⟩ := ih hids.2 hfirst
    rw [List.foldl_cons]
    refine ⟨by rw [hbudget, bookShare_budget], ?_, ?_⟩
    · intro i hi
      rw [List.map_cons, List.mem_cons, not_or] at hi
      rw [hothers i hi.2, capitalOf_bookShare_of_ne _ _ _ hi.1]
    · intro part hpart
      rcases List.mem_cons.mp hpart with rfl | hpart
      · exact hothers _ hids.1
      · have hne : part.1 ≠ first.1 := by
          intro h
          exact hids.1 (h ▸ List.mem_map_of_mem hpart)
        have hcap := capitalOf_bookShare_of_ne (s := s) orderId assetId unitValue hne
        have hpos := positionOf_bookShare orderId assetId unitValue first hrecorded part.1 assetId
        rw [if_neg (fun h => hne h.1), add_zero] at hpos
        rw [hparts part hpart, capitalOf_bookShare, bookShare_budget, hcap, hpos,
          ← capitalOf_bookShare]

theorem reservedFor_fill (c : StrategyCapital) {held quantity unitValue : Decimal}
    (hc : ∀ o, 0 ≤ c.reservedFor o) (o : String) :
    0 ≤ (c.fill orderId assetId held quantity unitValue).reservedFor o := by
  unfold StrategyCapital.fill
  dsimp only
  cases hget : c.reserved.get? orderId with
  | none => exact hc o
  | some heldBack =>
    dsimp only
    split_ifs with hdeploys hleft
    · unfold StrategyCapital.reservedFor
      dsimp only
      rw [Dict.get?_set]
      split_ifs
      · exact hleft.le
      · exact hc o
    · unfold StrategyCapital.reservedFor
      dsimp only
      rw [Dict.get?_delete]
      split_ifs
      · exact le_rfl
      · exact hc o
    · exact hc o

theorem reservedFor_release (c : StrategyCapital) (hc : ∀ o, 0 ≤ c.reservedFor o) (o : String) :
    0 ≤ (c.release orderId).reservedFor o := by
  unfold StrategyCapital.release
  cases c.reserved.get? orderId with
  | none => exact hc o
  | some amount =>
    unfold StrategyCapital.reservedFor
    dsimp only
    rw [Dict.get?_delete]
    split_ifs
    · exact le_rfl
    · exact hc o

end

/-! ## One call -/

structure CeilingLedgers (s : AllocationState) : Prop where
  reserved : ReservesNonneg s
  named : StrategiesNamed s
  recorded : s.strategyPositions ≠ none

section
variable {s : AllocationState}

theorem freeCapital_step (orderId strategyId : String) (hs : ReservesNonneg s) :
    (s.freeCapital orderId strategyId).budget = s.budget ∧
      (s.freeCapital orderId strategyId).strategyPositions = s.strategyPositions ∧
      ReservesNonneg (s.freeCapital orderId strategyId) ∧
      ∀ i, ((s.freeCapital orderId strategyId).capitalOf i).committed ≤
        (s.capitalOf i).committed := by
  unfold AllocationState.freeCapital
  cases hget : s.strategyCapital.get? strategyId with
  | none => exact ⟨rfl, rfl, hs, fun i => le_rfl⟩
  | some capital =>
    have hcapital : s.capitalOf strategyId = capital := by
      rw [AllocationState.capitalOf, hget, Option.getD_some]
    refine ⟨rfl, rfl, ?_, ?_⟩
    · intro i o
      dsimp only
      rw [capitalOf_setCapital]
      split_ifs
      · exact reservedFor_release capital (fun o => hcapital ▸ hs strategyId o) o
      · exact hs i o
    · intro i
      dsimp only
      rw [capitalOf_setCapital]
      split_ifs with hi
      · rw [release_committed, hi, hcapital]
        have hfreed := hs strategyId orderId
        rw [hcapital] at hfreed
        linarith
      · exact le_rfl

theorem retireContributions_step (orderId : String) (hs : CeilingLedgers s) :
    (s.retireContributions orderId).budget = s.budget ∧
      CeilingLedgers (s.retireContributions orderId) ∧
      ∀ i, ((s.retireContributions orderId).capitalOf i).committed ≤
        (s.capitalOf i).committed := by
  unfold AllocationState.retireContributions
  cases hget : s.contributions.get? orderId with
  | none => exact ⟨rfl, hs, fun i => le_rfl⟩
  | some contributions =>
    have hfold : ∀ (l : List StrategyContribution) (s : AllocationState), ReservesNonneg s →
        (l.foldl (fun s c => s.freeCapital orderId c.strategyId) s).budget = s.budget ∧
        (l.foldl (fun s c => s.freeCapital orderId c.strategyId) s).strategyPositions =
          s.strategyPositions ∧
        ReservesNonneg (l.foldl (fun s c => s.freeCapital orderId c.strategyId) s) ∧
        ∀ i, ((l.foldl (fun s c => s.freeCapital orderId c.strategyId) s).capitalOf
          i).committed ≤ (s.capitalOf i).committed := by
      intro l
      induction l with
      | nil => exact fun s hs => ⟨rfl, rfl, hs, fun i => le_rfl⟩
      | cons c l ih =>
        intro s hs
        obtain ⟨hbudget, hpositions, hreserves, hcommitted⟩ :=
          freeCapital_step orderId c.strategyId hs
        obtain ⟨hbudget', hpositions', hreserves', hcommitted'⟩ := ih _ hreserves
        exact ⟨hbudget'.trans hbudget, hpositions'.trans hpositions, hreserves',
          fun i => (hcommitted' i).trans (hcommitted i)⟩
    obtain ⟨hbudget, hpositions, hreserves, hcommitted⟩ := hfold contributions s hs.reserved
    refine ⟨hbudget, ⟨hreserves, ?_, ?_⟩, hcommitted⟩
    · intro o
      unfold AllocationState.contributionsFor
      dsimp only
      rw [Dict.get?_delete]
      split_ifs
      · simp
      · exact hs.named o
    · dsimp only
      rw [hpositions]
      exact hs.recorded

theorem bookShare_committed {unitValue ceiling : Decimal} (hvalue : 0 ≤ unitValue)
    (hs : ReservesNonneg s) (hceiling : s.budget.strategyCeiling part.1 = some ceiling) :
    ((s.bookShare orderId assetId (some unitValue) part).capitalOf part.1).committed =
      (s.capitalOf part.1).committed - freedCost s assetId part +
        unreserved s orderId assetId part unitValue := by
  rw [capitalOf_bookShare]
  simp only [hceiling, if_true]
  rw [fill_committed _ _ _ (hs part.1 orderId)
    (multiply_nonneg (addingExposure_nonneg _ _) hvalue), freedCost, unreserved]
  ring

theorem bookShare_reserves (unitValue : Option Decimal) (part : String × Decimal)
    (hs : ReservesNonneg s) : ReservesNonneg (s.bookShare orderId assetId unitValue part) := by
  intro i o
  rw [capitalOf_bookShare]
  cases unitValue with
  | none => exact hs i o
  | some value =>
    cases s.budget.strategyCeiling part.1 with
    | none => exact hs i o
    | some ceiling =>
      dsimp only
      split_ifs
      · exact reservedFor_fill _ (hs i) o
      · exact hs i o

theorem bookShares_ledgers (unitValue : Option Decimal) (parts : List (String × Decimal))
    (hs : CeilingLedgers s) :
    CeilingLedgers (parts.foldl (fun s part => s.bookShare orderId assetId unitValue part) s) := by
  induction parts generalizing s with
  | nil => exact hs
  | cons part parts ih =>
    refine ih ⟨bookShare_reserves unitValue part hs.reserved, ?_,
      bookShare_recorded _ _ _ _ hs.recorded⟩
    intro o
    have hcontributions :
        (s.bookShare orderId assetId unitValue part).contributions = s.contributions := by
      unfold AllocationState.bookShare
      dsimp only
      split <;> rfl
    rw [AllocationState.contributionsFor, hcontributions]
    exact hs.named o

variable {signedQuantity unitValue : Decimal} {notional : Option Decimal}

theorem unitValueOf_nonneg
    (hpriced : (CeilingCall.fill orderId assetId signedQuantity notional).Priced)
    (hvalue : s.unitValueOf signedQuantity notional = some unitValue) : 0 ≤ unitValue := by
  unfold AllocationState.unitValueOf at hvalue
  split_ifs at hvalue
  obtain ⟨amount, hamount, rfl⟩ := Option.map_eq_some_iff.mp hvalue
  exact inContext_nonneg (div_nonneg (hpriced amount hamount) (abs_nonneg _))

variable {t : AllocationState}

/-- **A fill keeps every strategy within its ceiling iff its shares fit.** -/
theorem recordFill_within (hs : CeilingLedgers s) (hwithin : WithinCeilings s)
    (hpriced : (CeilingCall.fill orderId assetId signedQuantity notional).Priced)
    (ht : s.recordFill orderId assetId signedQuantity notional = .ok t) :
    CeilingLedgers t ∧ t.budget = s.budget ∧
      (WithinCeilings t ↔ (CeilingCall.fill orderId assetId signedQuantity notional).Fits s) := by
  unfold AllocationState.recordFill at ht
  dsimp only at ht
  split_ifs at ht with hnothing
  · obtain rfl := pure_ok.mp ht
    refine ⟨hs, rfl, fun _ hsigned parts unitValue hparts hvalue part hpart => ?_,
      fun _ => hwithin⟩
    rcases hnothing with hnone | hnone | hzero
    · exact absurd hnone hs.recorded
    · rw [hnone, splitByContribution, List.getLast?_nil] at hparts
      obtain rfl := Option.some.inj hparts
      cases hpart
    · exact absurd hzero hsigned
  · simp only [bind_ok, orRefuse_ok, pure_ok] at ht
    obtain ⟨parts, hparts, rfl⟩ := ht
    push Not at hnothing
    have hids : (parts.map Prod.fst).Nodup := by
      rw [split_ids hparts]
      exact hs.named orderId
    obtain ⟨hbudget, hothers, hbooked⟩ := capitalOf_bookShares orderId assetId
      (s.unitValueOf signedQuantity notional) parts hids hs.recorded
    refine ⟨bookShares_ledgers _ parts hs, hbudget, ?_, ?_⟩
    · intro hafter _ parts' unitValue hparts' hvalue part hpart ceiling hceiling
      obtain rfl := Option.some.inj (hparts.symm.trans hparts')
      have hcommitted := hafter part.1 ceiling (by rw [hbudget, hceiling])
      rw [hbooked part hpart, hvalue,
        bookShare_committed (unitValueOf_nonneg hpriced hvalue) hs.reserved hceiling] at hcommitted
      linarith
    · intro hfits i ceiling hceiling
      rw [hbudget] at hceiling
      by_cases hi : i ∈ parts.map Prod.fst
      · obtain ⟨part, hpart, rfl⟩ := List.mem_map.mp hi
        rw [hbooked part hpart]
        cases hvalue : s.unitValueOf signedQuantity notional with
        | none =>
          rw [capitalOf_bookShare]
          exact hwithin part.1 ceiling hceiling
        | some unitValue =>
          have hfit := hfits hnothing.2.2 parts unitValue hparts hvalue part hpart ceiling hceiling
          rw [bookShare_committed (unitValueOf_nonneg hpriced hvalue) hs.reserved hceiling]
          linarith
      · rw [hothers i hi]
        exact hwithin i ceiling hceiling

end

/-- **A call keeps every strategy within its ceiling iff it fits.** -/
theorem ceilingStep_within {s t : AllocationState} {call : CeilingCall} (hs : CeilingLedgers s)
    (hwithin : WithinCeilings s) (hpriced : call.Priced) (ht : ceilingStep s call = .ok t) :
    CeilingLedgers t ∧ (WithinCeilings t ↔ call.Fits s) := by
  cases call with
  | allocate batch =>
    obtain rfl := ok_inj.mp ht
    obtain ⟨hbudget, hreserves, hcommitted⟩ := allocate_committed batch hs.reserved hwithin
    have hrecorded := (allocate_kept s batch).1 ▸ hs.recorded
    refine ⟨⟨hreserves, allocate_named batch hs.named, hrecorded⟩, fun _ => trivial, ?_⟩
    intro _ i ceiling hceiling
    exact hcommitted i ceiling (hbudget ▸ hceiling)
  | fill orderId assetId signedQuantity notional =>
    obtain ⟨hledgers, _, hiff⟩ := recordFill_within hs hwithin hpriced ht
    exact ⟨hledgers, hiff⟩
  | cancel orderId =>
    obtain rfl := ok_inj.mp ht
    obtain ⟨hbudget, hledgers, hcommitted⟩ := retireContributions_step orderId hs
    refine ⟨hledgers, fun _ => trivial, ?_⟩
    intro _ i ceiling hceiling
    exact (hcommitted i).trans (hwithin i ceiling (hbudget ▸ hceiling))

theorem initial_within (budget : CapitalBudget) :
    CeilingLedgers (.initial budget) ∧ WithinCeilings (.initial budget) := by
  have hempty : ∀ i, (AllocationState.initial budget).capitalOf i = {} := fun i => rfl
  refine ⟨⟨?_, ?_, by simp [AllocationState.initial]⟩, ?_⟩
  · intro i o
    rw [hempty]
    exact le_rfl
  · intro o
    simp [AllocationState.contributionsFor, AllocationState.initial]
  · intro i ceiling hceiling
    have hbudget : budget.strategyCeiling i = some ceiling := hceiling
    unfold CapitalBudget.strategyCeiling at hbudget
    split_ifs at hbudget with henforce
    rw [hempty]
    simpa [StrategyCapital.committed] using budget.ceilings_nonneg henforce i ceiling hbudget

/-- A budget that bounds the strategy `A` at 100. -/
def hundredBudget : CapitalBudget where
  globalCapital := 1000
  maximumExposure := 1000
  strategyBudgets := Dict.empty.set "A" 100
  enforceStrategyBudgets := true
  ceilings_nonneg := by
    intro _ i ceiling h
    rw [Dict.get?_set] at h
    split_ifs at h
    · rw [← Option.some.inj h]
      norm_num
    · simp at h

/-- A batch of one order of `A` in `X`, priced at one. -/
def oneOrder (orderId : String) (quantity working : Decimal) : AllocationInput where
  intents := [{ strategyId := "A", instrument := "X", target := quantity }]
  marketPrices := Dict.empty.set "X" 1
  sizingModel := fixedQuantitySizing
  constraints := {}
  timestamp := 0
  positions := some (Dict.empty.set "X" working)
  working := Dict.empty.set ("A", "X") working
  newId := fun _ => orderId

/-- The ledgers after a purchase of 100 units, and a sale of as many while it works. -/
def offsettingOrders : AllocationState :=
  let bought := (allocate (.initial hundredBudget) (oneOrder "O-1" 100 0)).1
  (allocate bought (oneOrder "O-2" (-100) 100)).1

theorem offsettingOrders_reached : Runs ceilingStep (fun s call => call.Priced ∧ call.Fits s)
    (.initial hundredBudget) offsettingOrders := by
  have hbought : Runs ceilingStep (fun s call => call.Priced ∧ call.Fits s)
      (.initial hundredBudget)
      (allocate (.initial hundredBudget) (oneOrder "O-1" 100 0)).1 :=
    Runs.refl.step (i := .allocate (oneOrder "O-1" 100 0)) ⟨trivial, trivial⟩ rfl
  exact hbought.step (i := .allocate (oneOrder "O-2" (-100) 100)) ⟨trivial, trivial⟩ rfl

end AlphaLab
