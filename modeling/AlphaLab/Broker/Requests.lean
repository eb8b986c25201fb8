/-
  Cancel and modify requests (`broker/requests.py`): telling a retry from a new
  request.

  A request is identified by its content and its place in a sequence, never by
  when it was sent; the `RequestLedger` records what was issued, and
  `issueCancel` and `issueModify` consult it before anything is sent.

  * `issueCancel_new`: what a cancel decided `new` did; every other decision
    changes nothing (`issueCancel_other`), and an amendment that is asked for
    never changes the mirror (`issueModify_mirror`).
-/
import AlphaLab.Broker.VenueEvents

namespace AlphaLab

/-! ## Requests -/

structure CancelRequest where
  brokerOrderId : String
  attempt : ℕ
  requestedAt : Instant
  named : brokerOrderId ≠ "" := by decide
  counted : 1 ≤ attempt := by decide

structure ModifyRequest where
  brokerOrderId : String
  revision : ℕ
  quantity : Decimal
  price : Decimal
  requestedAt : Instant
  named : brokerOrderId ≠ "" := by decide
  counted : 1 ≤ revision := by decide
  positive : 0 < quantity := by decide
  priced : 0 ≤ price := by decide

/-- What `request_id` is the digest of: a request's kind, order and number, and
    the values asked for; never the time. -/
inductive RequestId where
  | cancel (brokerOrderId : String) (attempt : ℕ)
  | modify (brokerOrderId : String) (revision : ℕ) (quantity price : Decimal)
deriving DecidableEq

def CancelRequest.requestId (r : CancelRequest) : RequestId := .cancel r.brokerOrderId r.attempt

def ModifyRequest.requestId (r : ModifyRequest) : RequestId :=
  .modify r.brokerOrderId r.revision r.quantity r.price

inductive RequestOutcome where
  | new | duplicate | refused
deriving DecidableEq

/-- `RequestLedger`: every request issued, and the latest number of each order. -/
structure RequestLedger where
  issued : Dict RequestId (CancelRequest ⊕ ModifyRequest) := Dict.empty
  latestCancel : Dict String (ℕ × RequestId) := Dict.empty
  latestRevision : Dict String (ℕ × RequestId) := Dict.empty

/-- `_sequenced`: whether a number cannot be issued after the latest one. -/
def predates (number : ℕ) (latest : Option (ℕ × RequestId)) (requestId : RequestId) : Bool :=
  match latest with
  | none => false
  | some (highest, issuedId) => (number = highest ∧ requestId ≠ issuedId) ∨ number < highest

def BrokerOrder.cancelling (o : BrokerOrder) (requestedAt : Instant) : BrokerOrder :=
  { o with status := .pendingCancel, updatedAt := max o.updatedAt requestedAt }

def issueCancel (m : BrokerState) (ledger : RequestLedger) (r : CancelRequest) :
    BrokerState × RequestLedger × RequestOutcome :=
  if (ledger.issued.get? r.requestId).isSome then (m, ledger, .duplicate)
  else match m.orders.get? r.brokerOrderId with
    | none => (m, ledger, .refused)
    | some o =>
      if o.isTerminal then (m, ledger, .refused)
      else if predates r.attempt (ledger.latestCancel.get? o.brokerOrderId) r.requestId then
        (m, ledger, .refused)
      -- a cancel of the order is already in flight
      else if o.status.canonicalStatus = .cancelPending then (m, ledger, .duplicate)
      else
        (m.putOrder (o.cancelling r.requestedAt),
          { ledger with
            issued := ledger.issued.set r.requestId (.inl r)
            latestCancel := ledger.latestCancel.set o.brokerOrderId (r.attempt, r.requestId) },
          .new)

/-- `issue_modify`: the mirror is never changed here. -/
def issueModify (m : BrokerState) (ledger : RequestLedger) (r : ModifyRequest) :
    BrokerState × RequestLedger × RequestOutcome :=
  if (ledger.issued.get? r.requestId).isSome then (m, ledger, .duplicate)
  else match m.orders.get? r.brokerOrderId with
    | none => (m, ledger, .refused)
    | some o =>
      if predates r.revision (ledger.latestRevision.get? o.brokerOrderId) r.requestId then
        (m, ledger, .refused)
      else if o.isTerminal then (m, ledger, .refused)
      -- amending an order whose cancel is in flight contradicts the cancel
      else if o.status.canonicalStatus = .cancelPending then (m, ledger, .refused)
      else if r.quantity ≤ o.filledQuantity then (m, ledger, .refused)
      else if r.quantity = o.quantity ∧ r.price = o.price then (m, ledger, .refused)
      else
        (m,
          { ledger with
            issued := ledger.issued.set r.requestId (.inr r)
            latestRevision :=
              ledger.latestRevision.set o.brokerOrderId (r.revision, r.requestId) },
          .new)

variable {m : BrokerState} {ledger : RequestLedger} {r : CancelRequest}

/-- **A cancel is new** only for an order that is working with none in flight,
    and puts one in flight. -/
theorem issueCancel_new (h : (issueCancel m ledger r).2.2 = .new) :
    ∃ o, m.orders.get? r.brokerOrderId = some o ∧ o.isTerminal = false ∧
      o.status.canonicalStatus ≠ .cancelPending ∧
      (issueCancel m ledger r).1 = m.putOrder (o.cancelling r.requestedAt) := by
  rw [issueCancel] at h ⊢
  split_ifs at h ⊢ with hissued
  cases ho : m.orders.get? r.brokerOrderId with
  | none => simp [ho] at h
  | some o =>
    rw [ho] at h
    dsimp only at h ⊢
    split_ifs at h ⊢ with hterm hpredates hpending
    exact ⟨o, rfl, by simpa using hterm, hpending, rfl⟩

theorem issueCancel_other (h : (issueCancel m ledger r).2.2 ≠ .new) :
    (issueCancel m ledger r).1 = m := by
  rw [issueCancel] at h ⊢
  split_ifs at h ⊢ with hissued
  · rfl
  · cases ho : m.orders.get? r.brokerOrderId with
    | none => rfl
    | some o =>
      rw [ho] at h
      dsimp only at h ⊢
      split_ifs at h ⊢ with hterm hpredates hpending
      · rfl
      · rfl
      · rfl
      · exact absurd rfl h

theorem issueModify_mirror (m : BrokerState) (ledger : RequestLedger) (r : ModifyRequest) :
    (issueModify m ledger r).1 = m := by
  rw [issueModify]
  split_ifs with hissued
  · rfl
  · cases m.orders.get? r.brokerOrderId with
    | none => rfl
    | some o =>
      dsimp only
      split_ifs <;> rfl

theorem issueCancel_stepsTo {h : String} {o : BrokerOrder} (ho : m.orders.get? h = some o)
    (ledger : RequestLedger) (r : CancelRequest) :
    ∃ o', (issueCancel m ledger r).1.orders.get? h = some o' ∧ o.StepsTo o' := by
  by_cases hnew : (issueCancel m ledger r).2.2 = .new
  · obtain ⟨o₁, ho₁, hterm, hpending, hm⟩ := issueCancel_new hnew
    have hrow : ∀ s : OrderStatus, s.isTerminal = false → s ≠ .cancelPending →
        s.stepsTo .cancelPending = true := by decide
    rw [hm, putOrder_orders]
    refine Register.get?_put_step BrokerOrder.StepsTo ho ho₁ rfl
      (Or.inr ⟨hterm, Or.inr (hrow _ ?_ hpending)⟩) (Or.inl rfl)
    rw [← isTerminal_eq, hterm]
  · exact ⟨o, by rw [issueCancel_other hnew, ho], Or.inl rfl⟩

end AlphaLab
