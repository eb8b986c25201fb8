/-
  Redelivery within one connection session, and one cancel in flight at a time.

  A `Session` is a mirror, a request ledger and, as a ghost, the events applied
  since the connection came up; `SessionCall` is what moves it.

  * `Settled`: what an applied event leaves behind, and no call takes back
    (`apply_settled`);
  * `redelivery_changes_iff`: an event applied before, delivered again, changes
    the mirror iff it refuses a cancel while one is in flight, and a cancel in
    flight stays the only one until such a report arrives.
-/
import AlphaLab.Broker.Requests
import AlphaLab.Lib.Runs

namespace AlphaLab

open Fallible

/-! ## Sessions -/

/-- A mirror and a request ledger, and the events applied in the session. -/
structure Session where
  mirror : BrokerState
  ledger : RequestLedger
  applied : List VenueEvent

inductive SessionCall where
  | event (event : VenueEvent)
  | cancel (request : CancelRequest)
  | modify (request : ModifyRequest)

/-- The events applied once `event` is decided: none before a new connection. -/
def Session.appliedAfter (s : Session) (event : VenueEvent) : List VenueEvent :=
  if (applyVenueEvent s.mirror event).2.outcome = .applied then
    if event.report = .connected then [] else s.applied ++ [event]
  else s.applied

def Session.apply (s : Session) : SessionCall → Session
  | .event event => ⟨(applyVenueEvent s.mirror event).1, s.ledger, s.appliedAfter event⟩
  | .cancel r =>
    ⟨(issueCancel s.mirror s.ledger r).1, (issueCancel s.mirror s.ledger r).2.1, s.applied⟩
  | .modify r =>
    ⟨(issueModify s.mirror s.ledger r).1, (issueModify s.mirror s.ledger r).2.1, s.applied⟩

def sessionStep (s : Session) (call : SessionCall) : Except Empty Session := .ok (s.apply call)

def Session.opened (m : BrokerState) (ledger : RequestLedger) : Session := ⟨m, ledger, []⟩

/-- The events a redelivery of which is asked about: about orders, positions and
    balances, the absolute ones numbered. -/
def VenueEvent.redeliverable (e : VenueEvent) : Bool :=
  match e.report with
  | .status _ _ | .fill _ _ => true
  | .replaced _ _ _ | .position _ | .balances _ => e.sequence.isSome
  | .connected | .disconnected => false

/-- Whether the event refuses a cancel of the order `h` while one is in flight. -/
def VenueEvent.Reopens (e : VenueEvent) (m : BrokerState) (h : String) : Prop :=
  e.report = .status .cancelRejected h ∧
    ∃ o, m.orders.get? h = some o ∧ o.status.canonicalStatus = .cancelPending

/-! ## What an applied event leaves behind -/

def OrderStatus.past (status : OrderStatus) : StatusEventKind → Bool
  | .accepted => !status.unacknowledged
  | .rejected | .cancelled | .expired => status.isTerminal
  -- a refused cancel is news whenever a cancel is in flight
  | .cancelRejected => true

def VenueReport.subject? : VenueReport → Option Subject
  | replaced h _ _ => some (.order h)
  | position p => some (.position p.symbol)
  | balances _ => some .balances
  | status _ _ | fill _ _ | connected | disconnected => none

/-- The subject's reports up to number `n` are in the mirror, or superseded. -/
def BrokerState.Numbers (m : BrokerState) (subject : Subject) (n : ℕ) : Prop :=
  ∃ last, m.venueSequences.get? subject = some last ∧ n ≤ last

/-- What an applied event leaves in the mirror for the rest of the session. -/
def Settled (m : BrokerState) (e : VenueEvent) : Prop :=
  match e.report with
  | .status kind h => ∃ o, m.orders.get? h = some o ∧ o.status.canonicalStatus.past kind = true
  | .fill _ x => ∃ held, m.executions.get? x.executionId = some held
  | .replaced _ _ _ | .position _ | .balances _ =>
    ∀ subject n, e.report.subject? = some subject → e.sequence = some n → m.Numbers subject n
  | .connected | .disconnected => True

variable {kind : StatusEventKind}

variable {s t : OrderStatus} {filled : Decimal}

theorem past_of_next (h : nextOrderStatus s (.status kind) filled = some t) :
    t.past kind = true := by
  have hrow : ∀ s k t, orderTransitions s (.status k) = some t → OrderStatus.past t k = true := by
    decide
  rcases nextOrderStatus_eq_some h with ht | ⟨_, hk, _⟩
  · exact hrow s kind t ht
  · obtain rfl : kind = .cancelRejected := OrderEventKind.status.inj hk
    rfl

theorem BrokerOrder.StepsTo.past {o o' : BrokerOrder} (h : o.StepsTo o')
    (hpast : o.status.canonicalStatus.past kind = true) :
    o'.status.canonicalStatus.past kind = true := by
  have hrow : ∀ s t : OrderStatus, s.stepsTo t = true → ∀ k, s.past k = true → t.past k = true := by
    decide
  rcases h with rfl | ⟨_, hsame | hstep⟩
  · exact hpast
  · rwa [hsame]
  · exact hrow _ _ hstep kind hpast

variable {m : BrokerState}

theorem applyVenueEvent_executions {i : String} {x : BrokerExecution}
    (h : m.executions.get? i = some x) (event : VenueEvent) :
    (applyVenueEvent m event).1.executions.get? i = some x := by
  rcases applyVenueEvent_cases m event with ⟨_, he⟩ | ⟨_, _, _, _, _, _, _, hm⟩ |
    ⟨_, e, o, _, _, hc, hm⟩ | ⟨_, _, _, _, _, _, _, _, _, he⟩
  · rw [he, h]
  · rw [hm, putOrder_executions, h]
  · have hnew := (classifyExecution_applied.mp hc).1
    rw [hm, fill_executions, Register.get?_put]
    split_ifs with hi
    · rw [hi, hnew] at h
      cases h
    · exact h
  · rw [he, h]

variable {sequence : Option ℕ} {n : ℕ}

theorem numbered_numbers {subject s : Subject} (hp : m.Permits sequence subject) (h : m.Numbers s n)
    : (m.numbered sequence subject).Numbers s n := by
  obtain ⟨last, hlast, hle⟩ := h
  cases sequence with
  | none => exact ⟨last, hlast, hle⟩
  | some k =>
    by_cases hs : s = subject
    · subst hs
      refine ⟨k, Dict.get?_set_self _ _ _, hle.trans (le_of_lt (hp last hlast))⟩
    · refine ⟨last, ?_, hle⟩
      rw [BrokerState.numbered, Dict.get?_set_of_ne _ _ hs, hlast]

variable {event : VenueEvent} {subject : Subject}

theorem applyVenueEvent_numbers (h : m.Numbers subject n)
    (hsession : event.report = .connected → (applyVenueEvent m event).2.outcome ≠ .applied) :
    (applyVenueEvent m event).1.Numbers subject n := by
  rw [applyVenueEvent] at hsession ⊢
  cases hr : event.report with
  | status kind handle =>
    rcases statusEvent_cases m event kind handle with ⟨hm, _⟩ | ⟨o, target, _, _, hm⟩
    · rwa [hm]
    · rw [hm]
      exact h
  | fill claims e =>
    rcases fillEvent_cases m event e with ⟨hm, _⟩ | ⟨o, _, _, hm⟩
    · rwa [hm]
    · rw [hm]
      exact h
  | replaced handle quantity price =>
    rcases replacedEvent_cases m event handle quantity price
      with ⟨hm, _⟩ | ⟨hm, hp⟩ | ⟨o, hp, _, _, _, hm⟩
    · rwa [hm]
    · rw [hm]
      exact numbered_numbers hp h
    · rw [hm]
      exact numbered_numbers (m := m.putOrder _) hp h
  | position p =>
    rcases positionEvent_cases m event p with ⟨hm, _⟩ | ⟨hm, hp⟩ | ⟨hm, hp⟩
    · rwa [hm]
    · rw [hm]
      exact numbered_numbers hp h
    · rw [hm]
      exact numbered_numbers (m := { m with positions := m.positions.put p }) hp h
  | balances account =>
    rcases balancesEvent_cases m event account with ⟨hm, _⟩ | ⟨hm, hp⟩ | ⟨hm, hp, _⟩
    · rwa [hm]
    · rw [hm]
      exact numbered_numbers hp h
    · rw [hm]
      exact numbered_numbers (m := { m with account := account }) hp h
  | connected =>
    have hdup := hsession hr
    simp only [hr] at hdup
    dsimp only
    rw [BrokerState.connectivityEvent] at hdup ⊢
    split_ifs at hdup ⊢ with hstatus
    · exact h
    · exact absurd rfl hdup
    · exact absurd rfl hdup
  | disconnected =>
    dsimp only
    rw [BrokerState.connectivityEvent]
    split_ifs with hstatus hconnected
    · exact h
    · cases hconnected
    · exact h

variable {e : VenueEvent}

/-- **What an applied event leaves behind stays for the session.** -/
theorem settled_event (h : Settled m e)
    (hsession : event.report = .connected → (applyVenueEvent m event).2.outcome ≠ .applied) :
    Settled (applyVenueEvent m event).1 e := by
  rw [Settled] at h ⊢
  cases hr : e.report with
  | status kind handle =>
    rw [hr] at h
    obtain ⟨o, ho, hpast⟩ := h
    obtain ⟨o', ho', hstep⟩ := applyVenueEvent_stepsTo ho event
    exact ⟨o', ho', hstep.past hpast⟩
  | fill claims x =>
    rw [hr] at h
    obtain ⟨held, hheld⟩ := h
    exact ⟨held, applyVenueEvent_executions hheld event⟩
  | replaced handle quantity price =>
    rw [hr] at h
    intro subject n hs hn
    exact applyVenueEvent_numbers (h subject n hs hn) hsession
  | position p =>
    rw [hr] at h
    intro subject n hs hn
    exact applyVenueEvent_numbers (h subject n hs hn) hsession
  | balances account =>
    rw [hr] at h
    intro subject n hs hn
    exact applyVenueEvent_numbers (h subject n hs hn) hsession
  | connected => trivial
  | disconnected => trivial

theorem settled_cancel (h : Settled m e) (ledger : RequestLedger) (r : CancelRequest) :
    Settled (issueCancel m ledger r).1 e := by
  by_cases hnew : (issueCancel m ledger r).2.2 = .new
  · rw [Settled] at h ⊢
    obtain ⟨o₁, _, _, _, hm⟩ := issueCancel_new hnew
    cases hr : e.report with
    | status kind handle =>
      rw [hr] at h
      obtain ⟨o, ho, hpast⟩ := h
      obtain ⟨o', ho', hstep⟩ := issueCancel_stepsTo ho ledger r
      exact ⟨o', ho', hstep.past hpast⟩
    | fill claims x => simpa [hr, hm] using h
    | replaced handle quantity price => simpa [hr, hm, BrokerState.Numbers] using h
    | position p => simpa [hr, hm, BrokerState.Numbers] using h
    | balances account => simpa [hr, hm, BrokerState.Numbers] using h
    | connected => trivial
    | disconnected => trivial
  · rwa [issueCancel_other hnew]

theorem numbered_settles (hn : sequence = some n) :
    (m.numbered sequence subject).Numbers subject n := by
  subst hn
  exact ⟨n, Dict.get?_set_self _ _ _, le_rfl⟩

theorem settled_self (happlied : (applyVenueEvent m e).2.outcome = .applied) :
    Settled (applyVenueEvent m e).1 e := by
  rw [Settled]
  rw [applyVenueEvent] at happlied ⊢
  cases hr : e.report with
  | status kind h =>
    simp only [hr] at happlied
    rcases statusEvent_cases m e kind h with ⟨_, hne⟩ | ⟨o, target, ho, ht, hm⟩
    · exact absurd happlied hne
    · dsimp only
      rw [hm]
      refine ⟨o.movedTo target e.timestamp, ?_, past_of_next ht⟩
      rw [← Register.key_of_get? ho]
      exact Register.get?_put_self m.orders (o.movedTo target e.timestamp)
  | fill claims x =>
    simp only [hr] at happlied
    rcases fillEvent_cases m e x with ⟨_, hne, _⟩ | ⟨o, _, _, hm⟩
    · exact absurd happlied hne
    · dsimp only
      rw [hm]
      exact ⟨x, Register.get?_put_self m.executions x⟩
  | replaced h quantity price =>
    simp only [hr] at happlied
    rintro subject n ⟨⟩ hn
    rcases replacedEvent_cases m e h quantity price with ⟨_, hne⟩ | ⟨hm, _⟩ | ⟨o, _, _, _, _, hm⟩
    · exact absurd happlied hne
    · rw [hm]
      exact numbered_settles hn
    · rw [hm]
      exact numbered_settles hn
  | position p =>
    simp only [hr] at happlied
    rintro subject n ⟨⟩ hn
    rcases positionEvent_cases m e p with ⟨_, hne⟩ | ⟨hm, _⟩ | ⟨hm, _⟩
    · exact absurd happlied hne
    · rw [hm]
      exact numbered_settles hn
    · rw [hm]
      exact numbered_settles hn
  | balances account =>
    simp only [hr] at happlied
    rintro subject n ⟨⟩ hn
    rcases balancesEvent_cases m e account with ⟨_, hne⟩ | ⟨hm, _⟩ | ⟨hm, _⟩
    · exact absurd happlied hne
    · rw [hm]
      exact numbered_settles hn
    · rw [hm]
      exact numbered_settles hn
  | connected => trivial
  | disconnected => trivial

theorem not_permits_of_numbers (hn : sequence = some n) (h : m.Numbers subject n) :
    ¬ m.Permits sequence subject := by
  subst hn
  intro hp
  obtain ⟨last, hlast, hle⟩ := h
  exact absurd (hp last hlast) (not_lt.mpr hle)

theorem next_of_past (hpast : s.past kind = true)
    (h : nextOrderStatus s (.status kind) filled = some t) :
    s = .cancelPending ∧ kind = .cancelRejected := by
  have hrow : ∀ s k, OrderStatus.past s k = true → (orderTransitions s (.status k)).isSome →
      s = .cancelPending ∧ k = .cancelRejected := by decide
  refine hrow s kind hpast ?_
  rw [nextOrderStatus] at h
  cases ht : orderTransitions s (.status kind) with
  | none => simp [ht] at h
  | some t => rfl

/-- **A settled event changes nothing** unless it refuses a cancel in flight. -/
theorem settled_unchanged (h : Settled m e) (hagain : e.redeliverable = true)
    (hreopens : ∀ h, ¬ e.Reopens m h) : (applyVenueEvent m e).1 = m := by
  rw [Settled] at h
  rw [VenueEvent.redeliverable] at hagain
  rw [applyVenueEvent]
  cases hr : e.report with
  | status kind handle =>
    rw [hr] at h
    obtain ⟨o, ho, hpast⟩ := h
    rcases statusEvent_cases m e kind handle with ⟨hm, _⟩ | ⟨o₁, target, ho₁, ht, _⟩
    · exact hm
    · rw [ho] at ho₁
      obtain rfl := Option.some.inj ho₁
      obtain ⟨hpending, rfl⟩ := next_of_past hpast ht
      exact absurd ⟨hr, o, ho, hpending⟩ (hreopens handle)
  | fill claims x =>
    rw [hr] at h
    rcases fillEvent_cases m e x with ⟨hm, _⟩ | ⟨o, _, hc, _⟩
    · exact hm
    · rw [classifyExecution_duplicate.mpr h] at hc
      cases hc
  | replaced handle quantity price =>
    rw [hr] at h hagain
    obtain ⟨n, hn⟩ := Option.isSome_iff_exists.mp hagain
    have hnot := not_permits_of_numbers hn (h (.order handle) n rfl hn)
    rcases replacedEvent_cases m e handle quantity price with ⟨hm, _⟩ | ⟨_, hp⟩ | ⟨_, hp, _⟩
    · exact hm
    · exact absurd hp hnot
    · exact absurd hp hnot
  | position p =>
    rw [hr] at h hagain
    obtain ⟨n, hn⟩ := Option.isSome_iff_exists.mp hagain
    have hnot := not_permits_of_numbers hn (h (.position p.symbol) n rfl hn)
    rcases positionEvent_cases m e p with ⟨hm, _⟩ | ⟨_, hp⟩ | ⟨_, hp⟩
    · exact hm
    · exact absurd hp hnot
    · exact absurd hp hnot
  | balances account =>
    rw [hr] at h hagain
    obtain ⟨n, hn⟩ := Option.isSome_iff_exists.mp hagain
    have hnot := not_permits_of_numbers hn (h .balances n rfl hn)
    rcases balancesEvent_cases m e account with ⟨hm, _⟩ | ⟨_, hp⟩ | ⟨_, hp, _⟩
    · exact hm
    · exact absurd hp hnot
    · exact absurd hp hnot
  | connected => simp [hr] at hagain
  | disconnected => simp [hr] at hagain

variable {h : String}

theorem reopens_changes (hr : e.Reopens m h) : (applyVenueEvent m e).1 ≠ m := by
  obtain ⟨hr, o, ho, hpending⟩ := hr
  have hnext : nextOrderStatus o.status.canonicalStatus (.status .cancelRejected)
      o.filledQuantity = some (workingStatusFor o.filledQuantity) := by
    rw [hpending]
    rfl
  rw [applyVenueEvent, hr]
  simp only [BrokerState.statusEvent, ho, classifyOrderEvent_transition.mpr hnext]
  intro hm
  have hread := Register.get?_put_self m.orders
    (o.movedTo (workingStatusFor o.filledQuantity) e.timestamp)
  rw [← putOrder_orders, hm] at hread
  change m.orders.get? o.brokerOrderId = _ at hread
  rw [Register.key_of_get? ho, ho] at hread
  have hstatus : o.status.canonicalStatus = workingStatusFor o.filledQuantity :=
    congrArg (fun o : BrokerOrder => o.status.canonicalStatus) (Option.some.inj hread)
  rw [hpending, workingStatusFor] at hstatus
  split_ifs at hstatus

theorem apply_settled {s : Session} (call : SessionCall) (h : ∀ e ∈ s.applied, Settled s.mirror e) :
    ∀ e ∈ (s.apply call).applied, Settled (s.apply call).mirror e := by
  cases call with
  | event event =>
    intro e he
    simp only [Session.apply, Session.appliedAfter] at he ⊢
    split_ifs at he with happlied hconnected
    · cases he
    · rcases List.mem_append.mp he with he | he
      · exact settled_event (h e he) fun hr => absurd hr hconnected
      · obtain rfl := List.mem_singleton.mp he
        exact settled_self happlied
    · exact settled_event (h e he) fun _ => happlied
  | cancel r =>
    intro e he
    exact settled_cancel (h e he) s.ledger r
  | modify r =>
    intro e he
    simp only [Session.apply, issueModify_mirror] at he ⊢
    exact h e he

def InFlight (m : BrokerState) (h : String) : Prop :=
  ∃ o, m.orders.get? h = some o ∧
    (o.status.canonicalStatus = .cancelPending ∨ o.isTerminal = true)

variable {ledger : RequestLedger} {r : CancelRequest}

theorem issueCancel_not_new (h : InFlight m r.brokerOrderId) :
    (issueCancel m ledger r).2.2 ≠ .new := by
  intro hnew
  obtain ⟨o, ho, hstatus⟩ := h
  obtain ⟨o₁, ho₁, hterm, hpending, _⟩ := issueCancel_new hnew
  rw [ho] at ho₁
  obtain rfl := Option.some.inj ho₁
  rcases hstatus with hs | hs
  · exact hpending hs
  · rw [hs] at hterm
    cases hterm

theorem issueCancel_inFlight (h : (issueCancel m ledger r).2.2 = .new) :
    InFlight (issueCancel m ledger r).1 r.brokerOrderId := by
  obtain ⟨o, ho, _, _, hm⟩ := issueCancel_new h
  refine ⟨o.cancelling r.requestedAt, ?_, Or.inl rfl⟩
  rw [hm, ← Register.key_of_get? ho]
  exact Register.get?_put_self m.orders (o.cancelling r.requestedAt)

theorem applyVenueEvent_inFlight (hflight : InFlight m h) (hreopens : ¬ event.Reopens m h) :
    InFlight (applyVenueEvent m event).1 h := by
  obtain ⟨o, ho, hstatus⟩ := hflight
  rcases hstatus with hpending | hterm
  · -- the order that is replaced by `w` is `o` itself, or another
    have key : ∀ o₁ w : BrokerOrder, ∀ handle, m.orders.get? handle = some o₁ →
        w.brokerOrderId = o₁.brokerOrderId →
        (o₁ = o → w.status.canonicalStatus = .cancelPending ∨ w.isTerminal = true) →
        ∃ o', (m.orders.put w).get? h = some o' ∧
          (o'.status.canonicalStatus = .cancelPending ∨ o'.isTerminal = true) := by
      intro o₁ w handle ho₁ hkey hw
      obtain ⟨o', ho', hp⟩ := Register.get?_put_step
        (fun a b : BrokerOrder => a = o →
          b.status.canonicalStatus = .cancelPending ∨ b.isTerminal = true)
        ho ho₁ hkey hw (fun _ => Or.inl hpending)
      exact ⟨o', ho', hp rfl⟩
    rcases applyVenueEvent_cases m event with ⟨hm, _⟩ | ⟨kind, handle, o₁, target, hr, ho₁, ht, hm⟩ |
      ⟨_, e, o₁, _, ho₁, _, hm⟩ | ⟨handle, quantity, price, o₁, _, ho₁, _, _, hm, _⟩
    · exact ⟨o, by rw [hm, ho], Or.inl hpending⟩
    · rw [hm]
      refine key o₁ _ handle ho₁ rfl ?_
      rintro rfl
      have hhandle : handle = h := by
        rw [← Register.key_of_get? ho₁, Register.key_of_get? ho]
      have hkind : kind ≠ .cancelRejected := by
        rintro rfl
        exact hreopens ⟨hhandle ▸ hr, o₁, ho, hpending⟩
      have hrow : ∀ k t, k ≠ .cancelRejected →
          orderTransitions .cancelPending (.status k) = some t → t.isTerminal = true := by decide
      rw [hpending] at ht
      refine Or.inr ?_
      rw [isTerminal_eq]
      rcases nextOrderStatus_eq_some ht with ht | ⟨_, hk, _⟩
      · exact hrow kind target hkind ht
      · exact absurd (OrderEventKind.status.inj hk) hkind
    · rw [hm]
      refine key o₁ (o₁.filledBy e) e.brokerOrderId ho₁ rfl ?_
      rintro rfl
      simp only [BrokerOrder.filledBy, statusAfterFill, BrokerOrder.isTerminal]
      split_ifs
      · exact Or.inr rfl
      · exact Or.inl hpending
    · rw [InFlight, hm]
      refine key o₁ (o₁.amendedTo quantity price event.timestamp) handle ho₁ rfl ?_
      rintro rfl
      exact Or.inl hpending
  · obtain ⟨o', ho', hstep⟩ := applyVenueEvent_stepsTo ho event
    rw [hstep.terminal hterm] at ho'
    exact ⟨o, ho', Or.inr hterm⟩

theorem apply_inFlight {s : Session} {call : SessionCall} (hflight : InFlight s.mirror h)
    (hreopens : ∀ event, call = .event event → ¬ event.Reopens s.mirror h) :
    InFlight (s.apply call).mirror h := by
  cases call with
  | event event => exact applyVenueEvent_inFlight hflight (hreopens event rfl)
  | cancel r =>
    obtain ⟨o, ho, hstatus⟩ := hflight
    by_cases hnew : (issueCancel s.mirror s.ledger r).2.2 = .new
    · obtain ⟨o₁, ho₁, _, _, hm⟩ := issueCancel_new hnew
      obtain ⟨o', ho', hp⟩ := Register.get?_put_step
        (fun a b : BrokerOrder =>
          a.status.canonicalStatus = .cancelPending ∨ a.isTerminal = true →
          b.status.canonicalStatus = .cancelPending ∨ b.isTerminal = true)
        ho ho₁ (w := o₁.cancelling r.requestedAt) rfl (fun _ => Or.inl rfl) id
      exact ⟨o', by rw [Session.apply, hm]; exact ho', hp hstatus⟩
    · exact ⟨o, by rw [Session.apply, issueCancel_other hnew]; exact ho, hstatus⟩
  | modify r =>
    rw [Session.apply, issueModify_mirror]
    exact hflight

/-- **Redelivery changes the mirror only by refusing a cancel in flight**, and a
    cancel in flight stays the only one until such a report arrives. -/
theorem redelivery_changes_iff (m : BrokerState) (ledger : RequestLedger) {s : Session}
    (hrun : Runs sessionStep (fun _ _ => True) (Session.opened m ledger) s) :
    (∀ e ∈ s.applied, e.redeliverable = true →
      ((applyVenueEvent s.mirror e).1 = s.mirror ↔ ∀ h, ¬ e.Reopens s.mirror h)) ∧
    ∀ r t, (issueCancel s.mirror s.ledger r).2.2 = .new →
      Runs sessionStep (fun u call => ∀ event, call = .event event →
        ¬ event.Reopens u.mirror r.brokerOrderId) (s.apply (.cancel r)) t →
      ∀ r' : CancelRequest, r'.brokerOrderId = r.brokerOrderId →
        (issueCancel t.mirror t.ledger r').2.2 ≠ .new := by
  constructor
  · have hsettled : ∀ e ∈ s.applied, Settled s.mirror e := by
      refine hrun.invariant (fun s => ∀ e ∈ s.applied, Settled s.mirror e) (by simp [Session.opened])
        ?_
      intro s call t hs _ ht
      rw [← ok_inj.mp ht]
      exact apply_settled call hs
    intro e he hagain
    constructor
    · intro hm h hreopens
      exact reopens_changes hreopens hm
    · intro hreopens
      exact settled_unchanged (hsettled e he) hagain hreopens
  · intro r t hnew hrun' r' hr'
    have hflight : InFlight t.mirror r.brokerOrderId := by
      refine hrun'.invariant (fun u => InFlight u.mirror r.brokerOrderId)
        (issueCancel_inFlight hnew) ?_
      intro u call v hu hmeets hv
      rw [← ok_inj.mp hv]
      exact apply_inFlight hu hmeets
    exact issueCancel_not_new (hr' ▸ hflight)

/-! ## A refusal delivered again -/

def workingMirror : BrokerState where
  brokerName := "PAPER"
  connectionStatus := .connected
  account := {
    accountId := "ACC-1"
    cash := 1000
    equity := 1000
    buyingPower := 1000
    margin := 0
    availableFunds := 1000
    currency := "USD" }
  orders := Register.empty.put {
    brokerOrderId := "B-1"
    omsOrderId := "O-1"
    symbol := "AAPL"
    side := .buy
    orderType := .limit
    quantity := 10
    price := 5
    filledQuantity := 0
    averageFillPrice := 0
    status := .canonical .accepted
    createdAt := 1
    updatedAt := 1 }

/-- The `attempt`-th cancel of the order. -/
def cancelAttempt (attempt : ℕ) (h : 1 ≤ attempt := by decide) : CancelRequest where
  brokerOrderId := "B-1"
  attempt := attempt
  requestedAt := attempt + 1
  counted := h

def firstRefusal : VenueEvent where
  report := .status .cancelRejected "B-1"
  timestamp := 3

def refusedOnce : Session :=
  ((Session.opened workingMirror {}).apply (.cancel (cancelAttempt 1))).apply (.event firstRefusal)

def secondInFlight : Session := refusedOnce.apply (.cancel (cancelAttempt 2))

/-- **The refusal of an earlier cancel, delivered again, reopens the order**, and a
    third cancel is new while the second is in flight. -/
theorem late_refusal_reopens :
    firstRefusal ∈ secondInFlight.applied ∧ firstRefusal.redeliverable = true ∧
      (issueCancel refusedOnce.mirror refusedOnce.ledger (cancelAttempt 2)).2.2 = .new ∧
      (applyVenueEvent secondInFlight.mirror firstRefusal).1 ≠ secondInFlight.mirror ∧
      (issueCancel (secondInFlight.apply (.event firstRefusal)).mirror
        (secondInFlight.apply (.event firstRefusal)).ledger (cancelAttempt 3)).2.2 = .new := by
  decide +kernel

/-- Delivered again at once the refusal changes nothing, and no third cancel is
    new while the second is in flight. -/
theorem redelivery_changes_iff_refused :
    (applyVenueEvent refusedOnce.mirror firstRefusal).1 = refusedOnce.mirror ∧
      (issueCancel secondInFlight.mirror secondInFlight.ledger (cancelAttempt 3)).2.2 ≠ .new := by
  have hrun : Runs sessionStep (fun _ _ => True) (Session.opened workingMirror {}) refusedOnce :=
    (Runs.refl.step trivial rfl).step trivial rfl
  obtain ⟨hagain, hcancel⟩ := redelivery_changes_iff workingMirror {} hrun
  constructor
  · refine (hagain firstRefusal (by decide +kernel) rfl).mpr ?_
    rintro h ⟨⟨⟩, o, ho, hpending⟩
    have hworking : (refusedOnce.mirror.orders.get? "B-1").all
        (·.status.canonicalStatus ≠ .cancelPending) = true := by decide +kernel
    rw [ho] at hworking
    exact of_decide_eq_true hworking hpending
  · exact hcancel (cancelAttempt 2) secondInFlight (by decide +kernel) .refl (cancelAttempt 3) rfl

end AlphaLab
