/-
  The order lifecycle (`core/lifecycle.py`): the events a venue reports about an
  order, and the one table of legal transitions that the OMS and the broker
  mirror both read.

  * `orderTransitions` is the table, `nextOrderStatus` the two rows of it that
    read a quantity as well;
  * `classifyOrderEvent` says what a status event is to an order: a
    transition, a repeat, a late report or a contradiction.
-/
import AlphaLab.Core.Enums
import AlphaLab.Portfolio.Money

namespace AlphaLab

/-- `STATUS_EVENT_KINDS`: the events that change an order's status without
    carrying a fill or an amendment. -/
inductive StatusEventKind where
  | accepted | rejected | cancelled | expired | cancelRejected
deriving DecidableEq

/-- `ORDER_EVENT_KINDS`: every event about one order. -/
inductive OrderEventKind where
  | status (kind : StatusEventKind)
  | partiallyFilled | filled | replaced
deriving DecidableEq

instance : Fintype StatusEventKind where
  elems := {.accepted, .rejected, .cancelled, .expired, .cancelRejected}
  complete := by rintro (_ | _) <;> decide

instance : Fintype OrderEventKind where
  elems := {.status .accepted, .status .rejected, .status .cancelled, .status .expired,
    .status .cancelRejected, .partiallyFilled, .filled, .replaced}
  complete := by rintro ((_ | _) | _) <;> decide

/-- `TERMINAL_ORDER_STATUSES`: no event moves an order out of one. -/
def OrderStatus.isTerminal : OrderStatus → Bool
  | filled | cancelled | rejected | expired => true
  | new | pending | accepted | partiallyFilled | cancelPending => false

/-- `CANCEL_REQUESTABLE_STATUSES`: where a cancel may be asked for. -/
def OrderStatus.cancelRequestable : OrderStatus → Bool
  | new | pending | accepted | partiallyFilled => true
  | filled | cancelPending | cancelled | rejected | expired => false

/-- `ORDER_TRANSITIONS`: where an event moves an order, if anywhere. -/
def orderTransitions : OrderStatus → OrderEventKind → Option OrderStatus
  | .new, .status .accepted | .pending, .status .accepted => some .accepted
  | .new, .status .rejected | .pending, .status .rejected => some .rejected
  | .new, .status .cancelled | .pending, .status .cancelled => some .cancelled
  | .new, .status .expired | .pending, .status .expired => some .expired
  | .new, .replaced => some .new
  | .pending, .replaced => some .pending
  | .accepted, .status .rejected => some .rejected
  | .accepted, .partiallyFilled => some .partiallyFilled
  | .accepted, .filled => some .filled
  | .accepted, .status .cancelled => some .cancelled
  | .accepted, .status .expired => some .expired
  | .accepted, .replaced => some .accepted
  | .partiallyFilled, .partiallyFilled => some .partiallyFilled
  | .partiallyFilled, .filled => some .filled
  | .partiallyFilled, .status .cancelled => some .cancelled
  | .partiallyFilled, .status .expired => some .expired
  | .partiallyFilled, .replaced => some .partiallyFilled
  | .cancelPending, .status .rejected => some .rejected
  | .cancelPending, .partiallyFilled => some .cancelPending
  | .cancelPending, .filled => some .filled
  | .cancelPending, .status .cancelled => some .cancelled
  | .cancelPending, .status .expired => some .expired
  | .cancelPending, .replaced => some .cancelPending
  | .cancelPending, .status .cancelRejected => some .accepted
  | _, _ => none

def workingStatusFor (filledQuantity : Decimal) : OrderStatus :=
  if 0 < filledQuantity then .partiallyFilled else .accepted

/-- `next_order_status`: where `event` moves an order with `filledQuantity`
    filled before it, or `none` if it may not. -/
def nextOrderStatus (status : OrderStatus) (event : OrderEventKind) (filledQuantity : Decimal) :
    Option OrderStatus :=
  match orderTransitions status event with
  | none => none
  | some target =>
    if event = .status .cancelRejected then some (workingStatusFor filledQuantity)
    -- an order that has traded cannot be rejected
    else if event = .status .rejected ∧ 0 < filledQuantity then none
    else some target

def orderEventKinds : List OrderEventKind :=
  [.status .accepted, .status .rejected, .status .cancelled, .status .expired,
   .status .cancelRejected, .partiallyFilled, .filled, .replaced]

/-- `_successors`: one step away, by an event or by asking for a cancel. -/
def successors (status : OrderStatus) : List OrderStatus :=
  orderEventKinds.filterMap (orderTransitions status) ++
    (if status.cancelRequestable then [.cancelPending] else []) ++
    -- a refused cancel lands on either working status
    (if status = .cancelPending then [.partiallyFilled] else [])

def reachedFrom (seen : List OrderStatus) : List OrderStatus :=
  seen ++ (seen.flatMap successors).dedup.filter (· ∉ seen)

/-- `reachable_statuses`: every status an order in `status` can still reach.
    There are nine statuses, so nine rounds close the set. -/
def reachableStatuses (status : OrderStatus) : List OrderStatus :=
  reachedFrom^[9] (successors status).dedup

inductive EventClassification where
  | transition | duplicate | stale | conflict

/-- `_REPORTED`: the status an event reports, wherever it is applied. -/
def reportedStatus (event : StatusEventKind) (filledQuantity : Decimal) : OrderStatus :=
  match event with
  | .accepted => .accepted
  | .rejected => .rejected
  | .cancelled => .cancelled
  | .expired => .expired
  | .cancelRejected => workingStatusFor filledQuantity

/-- `classify_order_event`: what a status event is to an order, and the status
    it reports (for a transition, the one the order moves to). -/
def classifyOrderEvent (status : OrderStatus) (event : StatusEventKind)
    (filledQuantity : Decimal) : EventClassification × OrderStatus :=
  match nextOrderStatus status (.status event) filledQuantity with
  | some target => (.transition, target)
  | none =>
    let reported := reportedStatus event filledQuantity
    if reported = status then (.duplicate, reported)
    else if status ∈ reachableStatuses reported then (.stale, reported)
    else (.conflict, reported)

variable {status : OrderStatus}

theorem nextOrderStatus_terminal (h : status.isTerminal = true) (event : OrderEventKind)
    (filled : Decimal) : nextOrderStatus status event filled = none := by
  have hrow : ∀ s : OrderStatus, s.isTerminal = true → ∀ e, orderTransitions s e = none := by decide
  rw [nextOrderStatus, hrow status h event]

variable {target : OrderStatus} {event : StatusEventKind} {filled : Decimal}

theorem classifyOrderEvent_transition :
    classifyOrderEvent status event filled = (.transition, target) ↔
      nextOrderStatus status (.status event) filled = some target := by
  rw [classifyOrderEvent]
  cases h : nextOrderStatus status (.status event) filled with
  | some t => simp
  | none =>
    simp only [reduceCtorEq, iff_false]
    split_ifs <;> simp

theorem nextOrderStatus_eq_some {event : OrderEventKind}
    (h : nextOrderStatus status event filled = some target) :
    orderTransitions status event = some target ∨
      (status = .cancelPending ∧ event = .status .cancelRejected ∧
        target = workingStatusFor filled) := by
  have hrow : ∀ s, (orderTransitions s (.status .cancelRejected)).isSome → s = .cancelPending := by
    decide
  rw [nextOrderStatus] at h
  cases ht : orderTransitions status event with
  | none => simp [ht] at h
  | some t =>
    rw [ht] at h
    dsimp only at h
    split_ifs at h with he hr
    · right
      refine ⟨hrow status ?_, he, (Option.some.inj h).symm⟩
      rw [← he, ht]
      rfl
    · exact Or.inl h

theorem nextOrderStatus_status_ne_filled :
    nextOrderStatus status (.status event) filled ≠ some .filled := by
  intro h
  have hrow : ∀ s k, orderTransitions s (.status k) ≠ some .filled := by decide
  rcases nextOrderStatus_eq_some h with ht | ⟨_, _, ht⟩
  · exact hrow status event ht
  · rw [workingStatusFor] at ht
    split_ifs at ht

end AlphaLab
