/-
  Allocating the capital of accounts to placements of strategies (`allocation/capital.py`).

  * `CapitalAccount`, `CapitalPlacement`, `AllocationRule`, `CapitalAllocationPlan`: what an
    allocation is decided by; the checks of the constructors are fields.
  * `allocateCapital` asks for each placement, judges each account, scales and rounds down to the
    granularity, and judges the limits. Figures are computed in `capitalContext`, sums in the
    context of the caller.
-/
import AlphaLab.Lib.Contexts
import AlphaLab.Lib.Runs
import AlphaLab.Lib.SortBy
import AlphaLab.Portfolio.Ledger
import Mathlib.Data.String.Basic

namespace AlphaLab

open Rounding Fallible

/-- `_CONTEXT` -/
def capitalContext : Rounding.Context 10 Decimal := .standard

structure CapitalConversion where
  amount : Decimal
  base : String
  quote : String
  rate : Decimal
  rateAsOf : Instant
  source : String
  derived : Bool
  converted : Decimal

/-- `CurrencyConverter`: `convert`, with the exceptions it raises. -/
abbrev CurrencyConverter (ε : Type) :=
  Decimal → String → String → Instant → Except ε CapitalConversion

/-! ## The plan -/

inductive CapitalDimension where
  | strategy | market | broker | account | currency
deriving DecidableEq

structure CapitalAccount where
  accountId : String
  brokerId : String
  currency : String
  available : Decimal
  reserved : Decimal
  nonneg : 0 ≤ reserved := by norm_num
  committed : reserved ≤ available := by norm_num

def CapitalAccount.free (a : CapitalAccount) : Decimal :=
  capitalContext.round (a.available - a.reserved)

structure CapitalPlacement where
  strategyId : String
  market : String
  accountId : String
deriving DecidableEq

/-- `FixedAmounts`, `PlacementWeights` or `EqualWeights`. -/
inductive AllocationRule where
  | fixedAmounts (amounts : CapitalPlacement → Decimal)
  | placementWeights (weights : CapitalPlacement → Decimal)
  | equalWeights (fraction : Decimal)

def AllocationRule.Nonneg : AllocationRule → List CapitalPlacement → Prop
  | fixedAmounts amounts, placements => ∀ p ∈ placements, 0 ≤ amounts p
  | placementWeights weights, placements => ∀ p ∈ placements, 0 ≤ weights p
  | equalWeights fraction, _ => 0 < fraction

inductive OversubscriptionRule where
  | refuse | proRata
deriving DecidableEq

structure CapitalLimit where
  dimension : CapitalDimension
  bucket : String
  maximumShare : Option Decimal
  minimumShare : Option Decimal

structure CapitalAllocationPlan where
  baseCurrency : String
  asOf : Instant
  accounts : List CapitalAccount
  placements : List CapitalPlacement
  rule : AllocationRule
  limits : List CapitalLimit
  oversubscription : OversubscriptionRule
  granularity : Decimal
  accountsOnce : (accounts.map (·.accountId)).Nodup := by decide
  placementsOnce : placements.Nodup := by decide
  someAccount : accounts ≠ [] := by decide
  somePlacement : placements ≠ [] := by decide
  held : ∀ p ∈ placements, p.accountId ∈ accounts.map (·.accountId) := by decide
  nonneg : rule.Nonneg placements
  positive : 0 < granularity

/-! ## The result -/

structure PlacementAllocation where
  placement : CapitalPlacement
  currency : String
  requested : Decimal
  allocated : Decimal
  baseAmount : Decimal
  conversion : Option CapitalConversion

structure AccountAllocation where
  account : CapitalAccount
  requested : Decimal
  allocated : Decimal
  unallocated : Decimal
  scale : Option Decimal
  baseFree : Decimal

structure DimensionAllocation where
  dimension : CapitalDimension
  amounts : List (String × Decimal)
  shares : List (String × Decimal)
  native : Option (List (String × Decimal))

structure LimitCheck where
  limit : CapitalLimit
  share : Decimal
  satisfied : Bool

/-- What a line of `reasons` says. -/
inductive CapitalReason where
  | oversubscribed (accountId : String) (asked free : Decimal) (scale : Option Decimal)
  | beyondLimit (limit : CapitalLimit) (share : Decimal)

inductive CapitalAllocationStatus where
  | allocated | refused
deriving DecidableEq

structure CapitalAllocationResult where
  status : CapitalAllocationStatus
  totalFree : Decimal
  placements : Option (List PlacementAllocation)
  accounts : List AccountAllocation
  dimensions : List DimensionAllocation
  checks : List LimitCheck
  reasons : List CapitalReason
  conversions : List CapitalConversion

/-- What `allocate_capital` raises: what the converter does, a rate of another pair, a placement
    of no account, or the branch that is marked unreachable. -/
inductive CapitalError (ε : Type) where
  | raised (e : ε)
  | otherPair
  | unknownAccount
  | beyondFree

/-! ## Allocation -/

/-- `_floor` -/
def capitalFloor (amount granularity : Decimal) : Decimal :=
  capitalContext.round (⌊capitalContext.round (amount / granularity)⌋ * granularity)

/-- `_labels` -/
def CapitalDimension.label (placement : CapitalPlacement) (account : CapitalAccount) :
    CapitalDimension → String
  | strategy => placement.strategyId
  | market => placement.market
  | broker => account.brokerId
  | .account => account.accountId
  | currency => account.currency

structure CapitalRequest where
  placement : CapitalPlacement
  account : CapitalAccount
  requested : Decimal
  conversion : Option CapitalConversion

namespace CapitalAllocationPlan

variable {ε : Type} (caller : Rounding.Context 10 Decimal) (converter : CurrencyConverter ε)
  (plan : CapitalAllocationPlan)

def convert (amount : Decimal) (source target : String) :
    Except (CapitalError ε) (Decimal × Option CapitalConversion) :=
  if source = target ∨ amount = 0 then .ok (amount, none)
  else match converter amount source target plan.asOf with
    | .error e => .error (.raised e)
    | .ok record =>
      if record.base ≠ source ∨ record.quote ≠ target then .error .otherPair
      else .ok (record.converted, some record)

def request (totalFree : Decimal) (p : CapitalPlacement) :
    Except (CapitalError ε) CapitalRequest := do
  let account ← (plan.accounts.find? fun a => a.accountId = p.accountId).elim
    (.error .unknownAccount) .ok
  let target := fun fraction => plan.convert converter (capitalContext.round (fraction * totalFree))
    plan.baseCurrency account.currency
  let (requested, conversion) ← match plan.rule with
    | .fixedAmounts amounts => .ok (amounts p, none)
    | .placementWeights weights => target (weights p)
    | .equalWeights fraction =>
      target (capitalContext.round (fraction / (plan.placements.length : ℕ)))
  pure { placement := p, account := account, requested := requested, conversion := conversion }

/-- `account_requests`: what an account is asked for. -/
def asked (requests : List CapitalRequest) (account : CapitalAccount) : Decimal :=
  caller.sum ((requests.filter fun r => r.placement.accountId = account.accountId).map
    (·.requested))

/-- `scales`: by what the requests of an account are scaled, if they are. -/
def scale (requests : List CapitalRequest) (account : CapitalAccount) : Option Decimal :=
  if asked caller requests account ≤ account.free then none
  else match plan.oversubscription with
    | .refuse => none
    | .proRata => some (capitalContext.round (account.free / asked caller requests account))

def oversubscribed (requests : List CapitalRequest) : List CapitalReason :=
  (plan.accounts.filter fun a => ¬ asked caller requests a ≤ a.free).map fun a =>
    .oversubscribed a.accountId (asked caller requests a) a.free (plan.scale caller requests a)

def scaled (requests : List CapitalRequest) (r : CapitalRequest) : Decimal :=
  (plan.scale caller requests r.account).elim r.requested fun scale =>
    capitalContext.round (r.requested * scale)

/-- What a placement receives: its request, scaled where stated, rounded down. -/
def allocation (requests : List CapitalRequest) (r : CapitalRequest) :
    Except (CapitalError ε) PlacementAllocation := do
  let allocated := capitalFloor (plan.scaled caller requests r) plan.granularity
  let (baseAmount, conversion) ← plan.convert converter allocated r.account.currency
    plan.baseCurrency
  pure { placement := r.placement, currency := r.account.currency, requested := r.requested,
         allocated := allocated, baseAmount := baseAmount, conversion := conversion }

/-- `allocated_by_account` -/
def allocatedTo (entries : List PlacementAllocation) (account : CapitalAccount) : Decimal :=
  caller.sum ((entries.filter fun e => e.placement.accountId = account.accountId).map
    (·.allocated))

def reconciled (requests : List CapitalRequest) (entries : List PlacementAllocation)
    (account : CapitalAccount × Decimal) : Except (CapitalError ε) AccountAllocation :=
  let allocated := allocatedTo caller entries account.1
  let unallocated := capitalContext.round (account.1.free - allocated)
  if unallocated < 0 then .error .beyondFree
  else .ok {
    account := account.1, requested := asked caller requests account.1, allocated := allocated,
    unallocated := unallocated, scale := plan.scale caller requests account.1,
    baseFree := account.2 }

def grouped (labelled : List (String × Decimal)) : List (String × Decimal) :=
  (sortBy id (labelled.map Prod.fst).dedup).map fun label =>
    (label, caller.sum ((labelled.filter fun l => l.1 = label).map Prod.snd))

def dimensionAllocation (totalFree : Decimal)
    (entries : List (CapitalRequest × PlacementAllocation)) (dimension : CapitalDimension) :
    DimensionAllocation :=
  let label := fun (e : CapitalRequest × PlacementAllocation) =>
    dimension.label e.1.placement e.1.account
  let amounts := grouped caller (entries.map fun e => (label e, e.2.baseAmount))
  { dimension := dimension
    amounts := amounts
    shares := amounts.map fun (label, amount) =>
      (label, if totalFree = 0 then 0 else capitalContext.round (amount / totalFree))
    native := if dimension = .currency then
        some (grouped caller (entries.map fun e => (label e, e.2.allocated)))
      else none }

def limitCheck (dimensions : List DimensionAllocation) (limit : CapitalLimit) : LimitCheck :=
  let shares := ((dimensions.find? fun d => d.dimension = limit.dimension).map (·.shares)).getD []
  let share := ((shares.find? fun s => s.1 = limit.bucket).map Prod.snd).getD 0
  { limit := limit
    share := share
    satisfied := limit.maximumShare.all (share ≤ ·) && limit.minimumShare.all (· ≤ share) }

/-- `refused`: nothing is allocated. -/
def refusal (totalFree : Decimal) (funded : List (CapitalAccount × Decimal))
    (requests : List CapitalRequest) (checks : List LimitCheck) (reasons : List CapitalReason)
    (conversions : List CapitalConversion) : CapitalAllocationResult where
  status := .refused
  totalFree := totalFree
  placements := none
  accounts := funded.map fun (a, free) => {
    account := a, requested := asked caller requests a, allocated := 0, unallocated := a.free,
    scale := none, baseFree := free }
  dimensions := []
  checks := checks
  reasons := reasons
  conversions := conversions

def judged (totalFree : Decimal) (funded : List (CapitalAccount × Decimal))
    (requests : List CapitalRequest) (entries : List PlacementAllocation)
    (accounts : List AccountAllocation) (conversions : List CapitalConversion) :
    CapitalAllocationResult :=
  let dimensions := [.strategy, .market, .broker, .account, .currency].map
    (dimensionAllocation caller totalFree (requests.zip entries))
  let checks := plan.limits.map (limitCheck dimensions)
  let reasons := plan.oversubscribed caller requests ++
    (checks.filter fun c => !c.satisfied).map fun c => .beyondLimit c.limit c.share
  if checks.all (·.satisfied) then
    { status := .allocated, totalFree := totalFree, placements := some entries
      accounts := accounts, dimensions := dimensions, checks := checks, reasons := reasons
      conversions := conversions }
  else refusal caller totalFree funded requests checks reasons conversions

end CapitalAllocationPlan

open CapitalAllocationPlan in
def allocateCapital {ε : Type} (caller : Rounding.Context 10 Decimal)
    (converter : CurrencyConverter ε) (plan : CapitalAllocationPlan) :
    Except (CapitalError ε) CapitalAllocationResult := do
  let baseFree ← plan.accounts.mapM fun a =>
    plan.convert converter a.free a.currency plan.baseCurrency
  let totalFree := caller.sum (baseFree.map Prod.fst)
  let requests ← plan.placements.mapM (plan.request converter totalFree)
  let conversions := baseFree.filterMap Prod.snd ++ requests.filterMap (·.conversion)
  let funded := plan.accounts.zip (baseFree.map Prod.fst)
  if plan.oversubscription = .refuse ∧ plan.oversubscribed caller requests ≠ [] then
    pure (refusal caller totalFree funded requests []
      (plan.oversubscribed caller requests) conversions)
  else do
    let entries ← requests.mapM (plan.allocation caller converter requests)
    let accounts ← funded.mapM (plan.reconciled caller requests entries)
    pure (plan.judged caller totalFree funded requests entries accounts
      (conversions ++ entries.filterMap (·.conversion)))

end AlphaLab
