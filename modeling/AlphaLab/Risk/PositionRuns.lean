/-
  Working orders and the position limit.

  `Desk` is one asset's filled position and its working orders; requests are judged by the
  gate at one price, and an approved one starts to work; orders fill in any order and in
  any parts, or are cancelled.

  * `Desk.Bounded` is the invariant: neither side's orders alone leave the limit;
  * `no_joint_breach_iff`: no run breaches the limit exactly when every request it approves
    meets no order of the other side, or stays within the limit with its own side's orders
    alone.
-/
import AlphaLab.Risk.Checks

namespace AlphaLab

open Fallible

/-! ## The desk -/

structure WorkingOrder where
  side : Side
  remaining : Decimal

structure Desk where
  position : Decimal
  working : List WorkingOrder

structure DeskConfig where
  assetId : String
  price : Decimal
  limits : RiskLimits
  named : assetId ≠ ""
  price_pos : 0 < price

/-- What a request is judged on beside the desk: the rest of the gate's state, the other
    assets' working orders, and what is charged. -/
structure DeskContext where
  state : RiskState
  others : Dict String WorkingExposure
  buckets : List BucketExposure
  workingCharge : Option Decimal
  charge : Option Decimal
  margin : Option (Decimal × Decimal)

inductive DeskCall where
  | request (request : OrderRequest) (x : DeskContext)
  | fill (index : ℕ) (quantity : Decimal)
  | cancel (index : ℕ)

inductive DeskRefusal where
  | otherAsset
  | notWorking
  | notAFill
  | overfill
  | judged (refusal : RiskRefusal)

namespace Desk

/-- What the orders' fills would do to the position, as the pipeline sums it. -/
def workingQuantity (d : Desk) : Decimal :=
  d.working.foldl (fun total o => add total (o.side.signed o.remaining)) 0

/-- What the gate is told of the desk (`_working_exposure`, `_evaluate_risk`). -/
def context (c : DeskConfig) (d : Desk) (x : DeskContext) : RiskContext where
  position := d.position
  price := c.price
  working :=
    if d.working = [] then x.others.delete c.assetId
    else x.others.set c.assetId ⟨d.workingQuantity, c.price, d.position, x.workingCharge⟩
  buckets := x.buckets
  charge := x.charge
  margin := x.margin

def judge (c : DeskConfig) (d : Desk) (request : OrderRequest) (x : DeskContext) :
    Except DeskRefusal RiskDecision := do
  require (request.assetId = c.assetId) .otherAsset
  (evaluate { x.state with activeLimits := c.limits } request (d.context c x)).mapError .judged

def step (c : DeskConfig) (d : Desk) : DeskCall → Except DeskRefusal Desk
  | .request request x => do
    let decision ← d.judge c request x
    pure (if decision.approved then
      { d with working := d.working ++ [⟨request.side, request.quantity⟩] } else d)
  | .fill index quantity => do
    let order ← orRefuse d.working[index]? .notWorking
    require (0 < quantity) .notAFill
    require (quantity ≤ order.remaining) .overfill
    pure {
      position := d.position + order.side.signed quantity
      working :=
        if quantity = order.remaining then d.working.eraseIdx index
        else d.working.set index { order with remaining := order.remaining - quantity } }
  | .cancel index => do
    let _ ← orRefuse d.working[index]? .notWorking
    pure { d with working := d.working.eraseIdx index }

/-! ## One side's orders -/

def sideTotal (d : Desk) (side : Side) : Decimal :=
  (d.working.map fun o => if o.side = side then o.remaining else 0).sum

def reach (d : Desk) (side : Side) : Decimal := d.position + side.signed (d.sideTotal side)

/-- The position a request is judged from: the filled one and every working order. -/
def committed (d : Desk) : Decimal :=
  if d.working = [] then d.position else add d.position d.workingQuantity

/-- No order of the other side works, and the sums fit the accounting context. -/
structure Unopposed (d : Desk) (request : OrderRequest) : Prop where
  side : ∀ o ∈ d.working, o.side = request.side
  committed : d.committed = d.reach request.side
  projected : add (d.reach request.side) (request.side.signed request.quantity) =
    d.reach request.side + request.side.signed request.quantity

/-- With the working orders of its own side alone, a request stays within the limit. -/
def OwnSideFits (c : DeskConfig) (d : Desk) (request : OrderRequest) : Prop :=
  request.side.signed (d.reach request.side) + request.quantity ≤ c.limits.position.maxQuantity

/-- **Neither side's working orders alone leave the limit.** -/
structure Bounded (c : DeskConfig) (d : Desk) : Prop where
  reach : ∀ side : Side, side.signed (d.reach side) ≤ c.limits.position.maxQuantity
  remaining : ∀ o ∈ d.working, 0 < o.remaining

end Desk

section
variable {c : DeskConfig} {d d' : Desk} {request : OrderRequest} {x : DeskContext}

variable (side : Side) (q : Decimal)

@[simp] theorem signed_signed : side.signed (side.signed q) = q := by
  cases side <;> simp [Side.signed]

theorem signed_add (p q : Decimal) : side.signed (p + q) = side.signed p + side.signed q := by
  cases side
  · rfl
  · simp only [Side.signed]
    ring

theorem signed_le_abs : side.signed q ≤ |q| := by
  cases side
  · exact le_abs_self q
  · exact neg_le_abs q

namespace Desk

theorem sideTotal_append (side : Side) (o : WorkingOrder) (position : Decimal) :
    (⟨position, d.working ++ [o]⟩ : Desk).sideTotal side =
      d.sideTotal side + if o.side = side then o.remaining else 0 := by
  simp [sideTotal]

theorem sideTotal_nonneg (h : ∀ o ∈ d.working, 0 < o.remaining) (side : Side) :
    0 ≤ d.sideTotal side := by
  refine List.sum_nonneg fun q hq => ?_
  obtain ⟨o, ho, rfl⟩ := List.mem_map.mp hq
  split_ifs
  · exact (h o ho).le
  · exact le_rfl

variable {index : ℕ}

theorem working_split {l : List WorkingOrder} {o : WorkingOrder} (ho : l[index]? = some o) :
    ∃ pre post, l = pre ++ o :: post ∧ l.eraseIdx index = pre ++ post ∧
      ∀ o', l.set index o' = pre ++ o' :: post := by
  induction l generalizing index with
  | nil => simp at ho
  | cons w l ih =>
    cases index with
    | zero =>
      obtain rfl : w = o := by simpa using ho
      exact ⟨[], l, rfl, rfl, fun _ => rfl⟩
    | succ index =>
      obtain ⟨pre, post, hl, herase, hset⟩ := ih (by simpa using ho)
      refine ⟨w :: pre, post, by simp [hl], by simp [herase], fun o' => by simp [hset o']⟩

/-! ### What one call does to the sides -/

/-- What a fill or a cancellation does to the desk: an order gives up some of what it had
    to fill, and the position moves by what was filled of it. -/
structure Eases (d d' : Desk) (o : WorkingOrder) (given filled : Decimal) : Prop where
  position : d'.position = d.position + o.side.signed filled
  total : ∀ side, d'.sideTotal side = d.sideTotal side - if o.side = side then given else 0
  remaining : (∀ w ∈ d.working, 0 < w.remaining) → ∀ w ∈ d'.working, 0 < w.remaining
  filled_nonneg : 0 ≤ filled
  filled_le : filled ≤ given

theorem fill_ok {quantity : Decimal} (h : d.step c (.fill index quantity) = .ok d') :
    ∃ o, d.working[index]? = some o ∧ 0 < quantity ∧ quantity ≤ o.remaining ∧
      d' = { position := d.position + o.side.signed quantity
             working := if quantity = o.remaining then d.working.eraseIdx index
               else d.working.set index { o with remaining := o.remaining - quantity } } := by
  simp only [step, bind_ok, orRefuse_ok, require_ok, pure_ok, exists_const] at h
  obtain ⟨o, ho, hpos, hle, rfl⟩ := h
  exact ⟨o, ho, hpos, hle, rfl⟩

theorem fill_eases {quantity : Decimal} (h : d.step c (.fill index quantity) = .ok d') :
    ∃ o, d.working[index]? = some o ∧ d.Eases d' o quantity quantity := by
  obtain ⟨o, ho, hpos, hle, rfl⟩ := fill_ok h
  obtain ⟨pre, post, hl, herase, hset⟩ := working_split ho
  refine ⟨o, ho, rfl, ?_, ?_, hpos.le, le_rfl⟩
  · intro side
    by_cases hall : quantity = o.remaining
    · subst hall
      rw [if_pos rfl, herase]
      simp only [sideTotal, hl, List.map_append, List.map_cons, List.sum_append, List.sum_cons]
      ring
    · rw [if_neg hall, hset]
      simp only [sideTotal, hl, List.map_append, List.map_cons, List.sum_append, List.sum_cons]
      split_ifs <;> ring
  · intro hd w hw
    dsimp only at hw
    by_cases hall : quantity = o.remaining
    · rw [if_pos hall, herase] at hw
      refine hd w ?_
      rw [hl]
      rcases List.mem_append.mp hw with hw | hw
      · exact List.mem_append_left _ hw
      · exact List.mem_append_right _ (List.mem_cons_of_mem _ hw)
    · rw [if_neg hall, hset] at hw
      rcases List.mem_append.mp hw with hw | hw
      · exact hd w (by rw [hl]; exact List.mem_append_left _ hw)
      · rcases List.mem_cons.mp hw with rfl | hw
        · exact sub_pos.mpr (lt_of_le_of_ne hle hall)
        · exact hd w (by rw [hl]; exact List.mem_append_right _ (List.mem_cons_of_mem _ hw))

theorem cancel_eases (hd : ∀ o ∈ d.working, 0 < o.remaining) (h : d.step c (.cancel index) = .ok d') :
    ∃ o, d.Eases d' o o.remaining 0 := by
  simp only [step, bind_ok, orRefuse_ok, pure_ok] at h
  obtain ⟨o, ho, rfl⟩ := h
  obtain ⟨pre, post, hl, herase, -⟩ := working_split ho
  have hmem : o ∈ d.working := by
    rw [hl]
    simp
  refine ⟨o, ?_, ?_, ?_, le_rfl, (hd o hmem).le⟩
  · cases hside : o.side <;> simp [Side.signed]
  · intro side
    simp only [sideTotal, herase]
    simp only [hl, List.map_append, List.map_cons, List.sum_append, List.sum_cons]
    ring
  · intro hd w hw
    dsimp only at hw
    rw [herase] at hw
    refine hd w ?_
    rw [hl]
    rcases List.mem_append.mp hw with hw | hw
    · exact List.mem_append_left _ hw
    · exact List.mem_append_right _ (List.mem_cons_of_mem _ hw)

/-- **A fill or a cancellation brings neither side further.** -/
theorem Eases.bounded {o : WorkingOrder} {given filled : Decimal} (h : d.Eases d' o given filled)
    (hd : d.Bounded c) : d'.Bounded c := by
  refine ⟨?_, h.remaining hd.remaining⟩
  intro side
  refine le_trans ?_ (hd.reach side)
  have hnonneg := h.filled_nonneg
  have hle := h.filled_le
  rw [reach, reach, h.position, h.total side]
  cases side <;> cases hside : o.side <;> simp [Side.signed] <;> linarith

variable {decision : RiskDecision}

theorem judge_ok (h : d.judge c request x = .ok decision) :
    request.assetId = c.assetId ∧ 0 < request.quantity ∧
      decision.violations =
        riskViolations { x.state with activeLimits := c.limits } request (d.context c x) := by
  simp only [judge, evaluate, bind_ok, require_ok, mapError_ok, pure_ok, exists_const] at h
  obtain ⟨hasset, hquantity, -, rfl⟩ := h
  exact ⟨hasset, hquantity, rfl⟩

theorem request_ok (h : d.step c (.request request x) = .ok d') :
    ∃ decision, d.judge c request x = .ok decision ∧
      d' = if decision.approved then
        { d with working := d.working ++ [⟨request.side, request.quantity⟩] } else d := by
  simp only [step, bind_ok, pure_ok] at h
  obtain ⟨decision, hjudge, rfl⟩ := h
  exact ⟨decision, hjudge, rfl⟩

theorem committedPosition_context (h : request.assetId = c.assetId) (s : RiskState) :
    ((d.context c x).projection s request).committedPosition = d.committed := by
  simp only [RiskContext.projection, project, context, committed, h]
  by_cases hnil : d.working = []
  · simp [hnil]
  · simp [hnil]

theorem projectedPosition_context (h : request.assetId = c.assetId) (s : RiskState) :
    ((d.context c x).projection s request).projectedPosition =
      add d.committed (request.side.signed request.quantity) := by
  rw [← committedPosition_context (x := x) h s]
  rfl

/-- **An approved request** does not grow the position, or stays within the limit with every
    working order netted. -/
theorem approved_within (h : d.judge c request x = .ok decision)
    (happroved : decision.approved = true) :
    ¬ grows d.committed (add d.committed (request.side.signed request.quantity)) ∨
      |add d.committed (request.side.signed request.quantity)| ≤
        c.limits.position.maxQuantity := by
  obtain ⟨hasset, -, hviolations⟩ := judge_ok h
  have hnone : decision.violations = [] := by simpa [RiskDecision.approved] using happroved
  set s : RiskState := { x.state with activeLimits := c.limits } with hs
  have hcheck : checkPositionLimit s ((d.context c x).projection s request) = none := by
    rw [Option.eq_none_iff_forall_ne_some]
    intro v hv
    have hmem : v ∈ riskViolations s request (d.context c x) :=
      mem_riskViolations.mpr (Or.inr (Or.inl hv))
    rw [← hviolations, hnone] at hmem
    cases hmem
  by_contra hnot
  rw [not_or, not_not, not_le] at hnot
  obtain ⟨hgrows, hbeyond⟩ := hnot
  simp only [checkPositionLimit, RiskProjection.increasesExposure,
    committedPosition_context hasset, projectedPosition_context hasset] at hcheck
  rw [if_neg (not_not.mpr hgrows), if_pos hbeyond] at hcheck
  cases hcheck

theorem ownSideFits_of_unopposed (h : d.judge c request x = .ok decision)
    (happroved : decision.approved = true) (hd : d.Bounded c) (hunopposed : d.Unopposed request) :
    d.OwnSideFits c request := by
  have hquantity : 0 < request.quantity := (judge_ok h).2.1
  have hmost : 0 ≤ c.limits.position.maxQuantity := by
    have hbuy := hd.reach .buy
    have hsell := hd.reach .sell
    have htotals := add_nonneg (sideTotal_nonneg hd.remaining .buy)
      (sideTotal_nonneg hd.remaining .sell)
    simp only [reach, Side.signed] at hbuy hsell
    linarith
  have hwithin := approved_within h happroved
  rw [hunopposed.committed, hunopposed.projected] at hwithin
  set reached := d.reach request.side with hreached
  have hsum : request.side.signed (reached + request.side.signed request.quantity) =
      request.side.signed reached + request.quantity := by
    rw [signed_add, signed_signed]
  rw [OwnSideFits, ← hreached, ← hsum]
  rcases hwithin with hgrows | hwithin
  · -- a request that does not grow the position comes from the other side of zero
    rw [grows, not_or, not_lt] at hgrows
    obtain ⟨hle, hreverses⟩ := hgrows
    refine le_trans ?_ hmost
    by_contra hpos
    rw [not_le] at hpos
    cases hside : request.side with
    | buy =>
      rw [hside] at hle hreverses hpos
      simp only [Side.signed, reverses, not_or, not_and, not_lt] at hle hreverses hpos
      have hbefore : 0 ≤ reached := by
        by_contra hneg
        exact absurd hpos (not_lt.mpr (hreverses.2 (not_le.mp hneg)))
      rw [abs_of_nonneg hbefore, abs_of_pos hpos] at hle
      linarith
    | sell =>
      rw [hside] at hle hreverses hpos
      simp only [Side.signed, reverses, not_or, not_and, not_lt] at hle hreverses hpos
      have hneg : reached + -request.quantity < 0 := neg_pos.mp hpos
      have hbefore : reached ≤ 0 := by
        by_contra hp
        have hafter := hreverses.1 hneg
        linarith [not_le.mp hp]
      rw [abs_of_nonpos hbefore, abs_of_neg hneg] at hle
      linarith
  · exact (signed_le_abs _ _).trans hwithin

theorem request_bounded (hd : d.Bounded c) (hquantity : 0 < request.quantity)
    (hfits : d.OwnSideFits c request) :
    ({ d with working := d.working ++ [⟨request.side, request.quantity⟩] } : Desk).Bounded c := by
  refine ⟨?_, ?_⟩
  · intro side
    rw [reach, sideTotal_append]
    by_cases hside : request.side = side
    · subst hside
      rw [if_pos rfl]
      refine le_trans (le_of_eq ?_) hfits
      rw [reach, signed_add, signed_signed, signed_add, signed_signed]
      ring
    · rw [if_neg hside, add_zero]
      exact hd.reach side
  · intro o ho
    rcases List.mem_append.mp ho with ho | ho
    · exact hd.remaining o ho
    · obtain rfl := List.mem_singleton.mp ho
      exact hquantity

/-- **Within its bounds, the position is within the limit.** -/
theorem Bounded.position_le (hd : d.Bounded c) : |d.position| ≤ c.limits.position.maxQuantity := by
  have hbuy := hd.reach .buy
  have hsell := hd.reach .sell
  have hbuys := sideTotal_nonneg hd.remaining .buy
  have hsells := sideTotal_nonneg hd.remaining .sell
  simp only [Desk.reach, Side.signed] at hbuy hsell
  rw [abs_le]
  constructor <;> linarith

/-! ## Runs -/

/-- The calls of a run: the requests that `asks` lets come, and any fill or cancellation. -/
def Comes (asks : Desk → OrderRequest → DeskContext → Prop) (d : Desk) : DeskCall → Prop
  | .request request x => asks d request x
  | .fill _ _ => True
  | .cancel _ => True

variable {asks : Desk → OrderRequest → DeskContext → Prop} {start : Desk}

/-- **One side's orders can all fill first**: a run goes on to a position with the working
    orders of that side filled, and no other. -/
theorem fills_all (side : Side) (hrun : Runs (step c) (Comes asks) start d)
    (hd : ∀ o ∈ d.working, 0 < o.remaining) :
    ∃ d', Runs (step c) (Comes asks) start d' ∧ d'.position = d.reach side := by
  induction hlength : d.working.length using Nat.strong_induction_on generalizing d with
  | _ n ih =>
    by_cases hside : ∃ o ∈ d.working, o.side = side
    · obtain ⟨o, ho, rfl⟩ := hside
      obtain ⟨index, ho⟩ := List.getElem?_of_mem ho
      have hpos : 0 < o.remaining := hd o (List.mem_of_getElem? ho)
      have hstep : d.step c (.fill index o.remaining) =
          .ok ⟨d.position + o.side.signed o.remaining, d.working.eraseIdx index⟩ := by
        simp [step, ho, orRefuse, require, hpos, bind, Except.bind, pure, Except.pure]
      obtain ⟨w, hw, heases⟩ := fill_eases hstep
      obtain rfl : o = w := Option.some.inj (ho.symm.trans hw)
      have hshort : (d.working.eraseIdx index).length < n := by
        have hindex : index < d.working.length := (List.getElem?_eq_some_iff.mp ho).1
        rw [List.length_eraseIdx_of_lt hindex]
        omega
      obtain ⟨d', hrun', hposition⟩ := ih _ hshort
        (hrun.step (i := .fill index o.remaining) trivial hstep) (heases.remaining hd) rfl
      refine ⟨d', hrun', hposition.trans ?_⟩
      have htotal := heases.total o.side
      rw [if_pos rfl] at htotal
      rw [reach, htotal, reach]
      cases o.side <;> simp [Side.signed]
      ring
    · refine ⟨d, hrun, ?_⟩
      have hzero : d.sideTotal side = 0 := by
        refine List.sum_eq_zero fun q hq => ?_
        obtain ⟨o, ho, rfl⟩ := List.mem_map.mp hq
        rw [if_neg]
        rintro rfl
        exact hside ⟨o, ho, rfl⟩
      cases side <;> simp [reach, hzero, Side.signed]

def Safe (c : DeskConfig) (d : Desk) (request : OrderRequest) (x : DeskContext) : Prop :=
  ∀ decision, d.judge c request x = .ok decision → decision.approved = true →
    d.Unopposed request ∨ d.OwnSideFits c request

theorem step_bounded {call : DeskCall} (hd : d.Bounded c)
    (hsafe : ∀ request x, call = .request request x → d.Safe c request x)
    (h : d.step c call = .ok d') : d'.Bounded c := by
  cases call with
  | request request x =>
    obtain ⟨decision, hjudge, rfl⟩ := request_ok h
    by_cases happroved : decision.approved = true
    · rw [if_pos happroved]
      refine request_bounded hd (judge_ok hjudge).2.1 ?_
      rcases hsafe request x rfl decision hjudge happroved with hunopposed | hfits
      · exact ownSideFits_of_unopposed hjudge happroved hd hunopposed
      · exact hfits
    · rwa [if_neg happroved]
  | fill index quantity =>
    obtain ⟨o, -, heases⟩ := fill_eases h
    exact heases.bounded hd
  | cancel index =>
    obtain ⟨o, heases⟩ := cancel_eases hd.remaining h
    exact heases.bounded hd

theorem start_bounded (hidle : start.working = [])
    (hwithin : |start.position| ≤ c.limits.position.maxQuantity) : start.Bounded c := by
  refine ⟨?_, by simp [hidle]⟩
  intro side
  have hreach : start.reach side = start.position := by
    cases side <;> simp [reach, sideTotal, hidle, Side.signed]
  rw [hreach]
  exact (signed_le_abs _ _).trans hwithin

theorem step_remaining {call : DeskCall} (hd : ∀ o ∈ d.working, 0 < o.remaining)
    (h : d.step c call = .ok d') : ∀ o ∈ d'.working, 0 < o.remaining := by
  cases call with
  | request request x =>
    obtain ⟨decision, hjudge, rfl⟩ := request_ok h
    split_ifs
    · intro o ho
      rcases List.mem_append.mp ho with ho | ho
      · exact hd o ho
      · obtain rfl := List.mem_singleton.mp ho
        exact (judge_ok hjudge).2.1
    · exact hd
  | fill index quantity =>
    obtain ⟨o, -, heases⟩ := fill_eases h
    exact heases.remaining hd
  | cancel index =>
    obtain ⟨o, heases⟩ := cancel_eases hd h
    exact heases.remaining hd

/-- **Approved orders cannot jointly breach the limit, exactly when each is safe**: from a
    position within the limit, whatever requests may come, no run leaves it if and only if
    every request it approves meets no working order of the other side, or stays within the
    limit with the orders of its own side alone. -/
theorem no_joint_breach_iff (hidle : start.working = [])
    (hwithin : |start.position| ≤ c.limits.position.maxQuantity) :
    (∀ d, Runs (step c) (Comes asks) start d → |d.position| ≤ c.limits.position.maxQuantity) ↔
      ∀ d, Runs (step c) (Comes asks) start d →
        ∀ request x, asks d request x → d.Safe c request x := by
  have hremaining : ∀ d, Runs (step c) (Comes asks) start d → ∀ o ∈ d.working, 0 < o.remaining := by
    intro d hrun
    refine hrun.invariant (fun d => ∀ o ∈ d.working, 0 < o.remaining) (by simp [hidle]) ?_
    intro d call d' hd _ h
    exact step_remaining hd h
  constructor
  · intro hnever d hrun request x hasks decision hjudge happroved
    right
    -- with the order at work, its own side's orders may all fill first
    have hstep : d.step c (.request request x) =
        .ok { d with working := d.working ++ [⟨request.side, request.quantity⟩] } := by
      simp [step, hjudge, happroved, bind, Except.bind, pure, Except.pure]
    have hcomes : Comes asks d (.request request x) := hasks
    have hrun' := hrun.step hcomes hstep
    obtain ⟨d', hfilled, hposition⟩ := fills_all request.side hrun' (hremaining _ hrun')
    have hbound := (signed_le_abs request.side _).trans (hnever d' hfilled)
    rw [hposition, reach, sideTotal_append, if_pos rfl] at hbound
    refine le_trans (le_of_eq ?_) hbound
    rw [reach, signed_add, signed_signed, signed_add, signed_signed]
    ring
  · intro hsafe d hrun
    have hbounded : d.Bounded c := by
      induction hrun with
      | refl => exact start_bounded hidle hwithin
      | step hrun hcomes h ih =>
        refine step_bounded ih ?_ h
        rintro request x rfl
        exact hsafe _ hrun request x hcomes
    exact hbounded.position_le

/-! ### Two runs -/

def openLimits (most : Decimal) : RiskLimits where
  orderSize := ⟨1000000, 1000000⟩
  position := ⟨most, 1000000⟩
  exposure := ⟨1000000, 1000000⟩
  maxLeverage := 1000000
  maxMarginUtilization := 1000000
  maxDailyLoss := none
  maxDrawdownPct := 1
  classification := []

def tenUnits : DeskConfig where
  assetId := "ABC"
  price := 1
  limits := openLimits 10
  named := by decide
  price_pos := by decide

def emptyBook : DeskContext where
  state := {
    activeLimits := openLimits 10
    exposure := ⟨0, 0, .empty⟩
    marginUsed := 0
    buyingPower := 1000000
    peakNav := 1000000
    currentNav := 1000000
    dailyLoss := 0 }
  others := .empty
  buckets := []
  workingCharge := none
  charge := none
  margin := none

def tenRequested (side : Side) : OrderRequest where
  orderId := "R"
  strategyId := "S"
  assetId := "ABC"
  side := side
  quantity := 10
  price := 1

/-- **Orders that net breach the limit together**: ten bought, ten sold against them and ten
    more bought are each approved within a limit of ten, and the purchases fill first. -/
theorem netted_orders_breach_jointly :
    ∃ d, Runs (step tenUnits) (Comes fun _ _ _ => True) ⟨0, []⟩ d ∧
      tenUnits.limits.position.maxQuantity < |d.position| := by
  obtain ⟨d, hd, hposition⟩ := exists_ok_of
    (x := [.request (tenRequested .buy) emptyBook, .request (tenRequested .sell) emptyBook,
      .request (tenRequested .buy) emptyBook, .fill 0 10, .fill 1 10].foldlM (step tenUnits) ⟨0, []⟩)
    (fun d => tenUnits.limits.position.maxQuantity < |d.position|) (by decide +kernel)
  refine ⟨d, .of_foldlM hd ?_, hposition⟩
  intro call _ d
  cases call <;> trivial

def whileIdle (d : Desk) (request : OrderRequest) (x : DeskContext) : Prop :=
  d = ⟨0, []⟩ ∧ request = tenRequested .buy ∧ x = emptyBook

/-- Its order filled, such a desk is at its limit and does not leave it. -/
theorem idle_desk_stays_within :
    ∃ d, Runs (step tenUnits) (Comes whileIdle) ⟨0, []⟩ d ∧ d.position = 10 ∧
      |d.position| ≤ tenUnits.limits.position.maxQuantity := by
  obtain ⟨d, hd, hposition⟩ := exists_ok_of
    (x := Desk.step tenUnits ⟨0, []⟩ (.request (tenRequested .buy) emptyBook))
    (fun d => (step tenUnits d (.fill 0 10)).toOption.any (fun e => decide (e.position = 10)) = true)
    (by decide +kernel)
  obtain ⟨e, he, hten⟩ := exists_ok_of (fun e : Desk => e.position = 10) hposition
  have hrequested : Runs (step tenUnits) (Comes whileIdle) ⟨0, []⟩ d :=
    .step .refl (show Comes whileIdle ⟨0, []⟩ (.request (tenRequested .buy) emptyBook) from
      ⟨rfl, rfl, rfl⟩) hd
  have hfilled := hrequested.step (show Comes whileIdle d (.fill 0 10) from trivial) he
  refine ⟨e, hfilled, hten, ?_⟩
  refine (no_joint_breach_iff (c := tenUnits) rfl (by decide +kernel)).mpr ?_ e hfilled
  rintro d - request x ⟨rfl, rfl, rfl⟩ decision - -
  exact Or.inl ⟨by simp, by decide +kernel, by decide +kernel⟩

end Desk

end

end AlphaLab
