/-
  The order in which events are delivered to the mirror.

  What acknowledges or fills one order, and the numbered reports of positions
  and balances, may arrive in any order.

  * `Arrived`, `Reported`: what a delivered list leaves of the orders and fills
    and of each numbered subject (`arrived_delivered`, `reported_delivered`);
  * `delivery_order_irrelevant`: two orders of one list leave the same mirror.
-/
import AlphaLab.Broker.Consistency
import AlphaLab.Broker.InformedOrder

namespace AlphaLab

def delivered (m : BrokerState) (l : List VenueEvent) : BrokerState :=
  l.foldl (fun m e => (applyVenueEvent m e).1) m

/-- Whether the event is no fill the mirror holds already. -/
def BrokerState.unseen (m : BrokerState) (e : VenueEvent) : Bool :=
  match e.report with
  | .fill _ x => (m.executions.get? x.executionId).isNone
  | _ => true

/-! ## What a list delivered leaves of the orders and the fills -/

/-- The events the claim is about: acknowledgements and fills of the order `h`, and
    numbered reports of positions and balances. -/
def VenueEvent.Delivers (e : VenueEvent) (h : String) : Prop :=
  match e.report with
  | .status kind k => kind = .accepted ∧ k = h
  | .fill _ x => x.brokerOrderId = h ∧ 0 < x.fillQuantity
  | .position _ | .balances _ => e.sequence.isSome = true
  | .replaced _ _ _ | .connected | .disconnected => False

structure Arrived (m : BrokerState) (h : String) (o : BrokerOrder) (l : List VenueEvent)
    (m' : BrokerState) : Prop where
  order : m'.orders.get? h = some ((l.filter m.unseen).foldl BrokerOrder.informed o)
  others : ∀ k, k ≠ h → m'.orders.get? k = m.orders.get? k
  executions : ∀ i x, m'.executions.get? i = some x ↔
    m.executions.get? i = some x ∨
      (m.executions.get? i = none ∧ x ∈ fillsOf l ∧ x.executionId = i)

theorem filter_append_singleton (m : BrokerState) (l : List VenueEvent) (e : VenueEvent) :
    (l ++ [e]).filter m.unseen = l.filter m.unseen ++ if m.unseen e then [e] else [] := by
  cases h : m.unseen e <;> simp [h]

variable {e : VenueEvent}

theorem Arrived.unmoved {m m₁ m₂ : BrokerState} {h : String} {o : BrokerOrder} {l : List VenueEvent}
    (harrived : Arrived m h o l m₁) (hx : e.execution? = none) (ha : e.acknowledges = false)
    (ho : m₂.orders = m₁.orders) (he : m₂.executions = m₁.executions) :
    Arrived m h o (l ++ [e]) m₂ := by
  have hinformed : ∀ w : BrokerOrder, w.informed e = w := by
    intro w
    rcases informed_cases w e with ⟨_, _, hw⟩ | ⟨_, ha', _⟩ | ⟨x, hx', _, _⟩
    · exact hw
    · rw [ha] at ha'
      cases ha'
    · rw [hx] at hx'
      cases hx'
  constructor
  · rw [ho, harrived.order, filter_append_singleton]
    split_ifs
    · rw [List.foldl_append, List.foldl_cons, List.foldl_nil, hinformed]
    · rw [List.append_nil]
  · rw [ho]
    exact harrived.others
  · rw [he, fillsOf_append, hx]
    simpa using harrived.executions

theorem statusEvent_accepted {m : BrokerState} {h : String} {o : BrokerOrder}
    (ho : m.orders.get? h = some o) (event : VenueEvent) :
    (m.statusEvent event .accepted h).1 =
      if o.status.canonicalStatus.unacknowledged then
        m.putOrder (o.movedTo .accepted event.timestamp)
      else m := by
  have hnext : nextOrderStatus o.status.canonicalStatus (.status .accepted) o.filledQuantity =
      if o.status.canonicalStatus.unacknowledged then some .accepted else none := by
    cases o.status.canonicalStatus <;> rfl
  rw [BrokerState.statusEvent, ho]
  dsimp only
  rw [classifyOrderEvent, hnext]
  split_ifs with hun
  · rfl
  · dsimp only
    split_ifs <;> rfl

theorem foldl_informed_append {m : BrokerState} (o : BrokerOrder) (l : List VenueEvent)
    (hunseen : m.unseen e = true) :
    ((l ++ [e]).filter m.unseen).foldl BrokerOrder.informed o =
      ((l.filter m.unseen).foldl BrokerOrder.informed o).informed e := by
  rw [filter_append_singleton, if_pos hunseen, List.foldl_append, List.foldl_cons, List.foldl_nil]

theorem Arrived.acknowledged {m m₁ : BrokerState} {h : String} {o : BrokerOrder}
    {l : List VenueEvent} (harrived : Arrived m h o l m₁) (hr : e.report = .status .accepted h) :
    Arrived m h o (l ++ [e]) (m₁.statusEvent e .accepted h).1 := by
  have hunseen : m.unseen e = true := by simp [BrokerState.unseen, hr]
  have hx : e.execution? = none := by simp [VenueEvent.execution?, hr]
  have hinformed : ∀ w : BrokerOrder, w.informed e =
      if w.status.canonicalStatus.unacknowledged then w.movedTo .accepted e.timestamp else w := by
    intro w
    rw [BrokerOrder.informed, hr]
  have hkey := Register.key_of_get? harrived.order
  rw [statusEvent_accepted harrived.order]
  constructor
  · rw [foldl_informed_append o l hunseen, hinformed]
    split_ifs with hun
    · rw [putOrder_orders, Register.get?_put]
      exact if_pos hkey.symm
    · exact harrived.order
  · intro k hk
    split_ifs with hun
    · rw [putOrder_orders, Register.get?_put_of_ne]
      · exact harrived.others k hk
      · rintro rfl
        exact hk hkey
    · exact harrived.others k hk
  · rw [fillsOf_append, hx, Option.toList_none, List.append_nil]
    split_ifs with hun
    · exact harrived.executions
    · exact harrived.executions

theorem Arrived.repeated {m m₁ : BrokerState} {h : String} {o : BrokerOrder} {l : List VenueEvent}
    {x held : BrokerExecution} (harrived : Arrived m h o l m₁) (hx : e.execution? = some x)
    (hseen : m.unseen e = false) (hheld : m.executions.get? x.executionId = some held) :
    Arrived m h o (l ++ [e]) m₁ := by
  constructor
  · rw [filter_append_singleton, hseen]
    simpa using harrived.order
  · exact harrived.others
  · intro i y
    rw [harrived.executions, fillsOf_append, hx]
    constructor
    · rintro (hy | ⟨hnone, hy, hi⟩)
      · exact Or.inl hy
      · exact Or.inr ⟨hnone, List.mem_append_left _ hy, hi⟩
    · rintro (hy | ⟨hnone, hy, hi⟩)
      · exact Or.inl hy
      · rw [Option.toList_some, List.mem_append, List.mem_singleton] at hy
        rcases hy with hy | rfl
        · exact Or.inr ⟨hnone, hy, hi⟩
        · rw [hi, hnone] at hheld
          cases hheld

variable {x : BrokerExecution}

theorem Arrived.filled {m m₁ : BrokerState} {o : BrokerOrder} {l : List VenueEvent} {claims : Bool}
    (harrived : Arrived m x.brokerOrderId o l m₁) (hr : e.report = .fill claims x)
    (hterm : o.isTerminal = false) (hnew : m.executions.get? x.executionId = none)
    (hids : ∀ y ∈ fillsOf l, y.executionId ≠ x.executionId)
    (htakes : o.Takes (fillsOf (l.filter m.unseen) ++ [x])) :
    Arrived m x.brokerOrderId o (l ++ [e]) (m₁.fillEvent e x).1 := by
  have hunseen : m.unseen e = true := by simp [BrokerState.unseen, hr, hnew]
  have hx : e.execution? = some x := by simp [VenueEvent.execution?, hr]
  have hinformed : ∀ w : BrokerOrder, w.informed e = w.filledBy x := by
    intro w
    rw [BrokerOrder.informed, hr]
  have hkey := Register.key_of_get? harrived.order
  have hnew₁ : m₁.executions.get? x.executionId = none := by
    refine Option.eq_none_iff_forall_ne_some.mpr fun y hy => ?_
    rcases (harrived.executions _ _).mp hy with hheld | ⟨_, hmem, hi⟩
    · rw [hnew] at hheld
      cases hheld
    · exact hids y hmem hi
  have hworking := statusAfterDelivery_working
    (acknowledgements (l.filter m.unseen) ≠ []) hterm htakes.not_complete
  rw [← informed_status htakes.init, ← isTerminal_eq] at hworking
  have happlied : classifyExecution m₁ x = .applied := by
    refine classifyExecution_applied.mpr ⟨hnew₁, htakes.1 x (by simp), _, harrived.order,
      hworking, ?_⟩
    rw [informed_filled, (informed_fixed o _).2, add_assoc, ← filledBySum_append]
    exact htakes.2
  rcases fillEvent_cases m₁ e x with ⟨_, _, hne⟩ | ⟨w, hw, _, hm⟩
  · exact absurd happlied hne
  · rw [harrived.order] at hw
    obtain rfl := Option.some.inj hw
    rw [hm]
    constructor
    · rw [foldl_informed_append o l hunseen, hinformed, fill_orders, Register.get?_put]
      exact if_pos hkey.symm
    · intro k hk
      rw [fill_orders, Register.get?_put_of_ne]
      · exact harrived.others k hk
      · rintro rfl
        exact hk hkey
    · intro i y
      rw [fill_executions, Register.get?_put, fillsOf_append, hx, Option.toList_some]
      split_ifs with hi
      · subst hi
        constructor
        · intro hy
          obtain rfl := Option.some.inj hy
          exact Or.inr ⟨hnew, by simp, rfl⟩
        · rintro (hheld | ⟨_, hmem, hi⟩)
          · rw [hnew] at hheld
            cases hheld
          · rw [List.mem_append, List.mem_singleton] at hmem
            rcases hmem with hmem | rfl
            · exact absurd hi (hids y hmem)
            · rfl
      · rw [harrived.executions]
        refine or_congr_right (and_congr_right fun _ => and_congr_left fun hy => ?_)
        rw [List.mem_append, List.mem_singleton]
        constructor
        · exact Or.inl
        · rintro (hmem | rfl)
          · exact hmem
          · exact absurd hy.symm hi

theorem Arrived.step {m m₁ : BrokerState} {h : String} {o : BrokerOrder} {l : List VenueEvent}
    (harrived : Arrived m h o l m₁) (hterm : o.isTerminal = false) (hdelivers : e.Delivers h)
    (hids : ((fillsOf (l ++ [e])).map (·.executionId)).Nodup)
    (htakes : o.Takes (fillsOf ((l ++ [e]).filter m.unseen))) :
    Arrived m h o (l ++ [e]) (applyVenueEvent m₁ e).1 := by
  rw [applyVenueEvent]
  unfold VenueEvent.Delivers at hdelivers
  cases hr : e.report with
  | status kind k =>
    rw [hr] at hdelivers
    obtain ⟨rfl, rfl⟩ := hdelivers
    exact harrived.acknowledged hr
  | fill claims x =>
    rw [hr] at hdelivers
    obtain ⟨rfl, hpos⟩ := hdelivers
    have hx : e.execution? = some x := by simp [VenueEvent.execution?, hr]
    cases hheld : m.executions.get? x.executionId with
    | none =>
      have hunseen : m.unseen e = true := by simp [BrokerState.unseen, hr, hheld]
      rw [filter_append_singleton, if_pos hunseen, fillsOf_append, hx] at htakes
      rw [fillsOf_append, hx, Option.toList_some, List.map_append, List.nodup_append] at hids
      refine harrived.filled hr hterm hheld ?_ htakes
      intro y hy hi
      exact hids.2.2 _ (List.mem_map_of_mem hy) _ (by simp) hi
    | some held =>
      have hseen : m.unseen e = false := by simp [BrokerState.unseen, hr, hheld]
      have hdup : (m₁.fillEvent e x).1 = m₁ := by
        rcases fillEvent_cases m₁ e x with ⟨hm, _⟩ | ⟨w, _, hc, _⟩
        · exact hm
        · rw [classifyExecution_duplicate.mpr
            ⟨held, (harrived.executions _ _).mpr (Or.inl hheld)⟩] at hc
          cases hc
      dsimp only
      rw [hdup]
      exact harrived.repeated hx hseen hheld
  | position p =>
    have hx : e.execution? = none := by simp [VenueEvent.execution?, hr]
    have ha : e.acknowledges = false := by simp [VenueEvent.acknowledges, hr]
    rcases positionEvent_cases m₁ e p with ⟨hm, _⟩ | ⟨hm, _⟩ | ⟨hm, _⟩
    · exact harrived.unmoved hx ha (by rw [hm]) (by rw [hm])
    · exact harrived.unmoved hx ha (by rw [hm, numbered_orders]) (by rw [hm, numbered_executions])
    · exact harrived.unmoved hx ha (by rw [hm, numbered_orders]) (by rw [hm, numbered_executions])
  | balances a =>
    have hx : e.execution? = none := by simp [VenueEvent.execution?, hr]
    have ha : e.acknowledges = false := by simp [VenueEvent.acknowledges, hr]
    rcases balancesEvent_cases m₁ e a with ⟨hm, _⟩ | ⟨hm, _⟩ | ⟨hm, _⟩
    · exact harrived.unmoved hx ha (by rw [hm]) (by rw [hm])
    · exact harrived.unmoved hx ha (by rw [hm, numbered_orders]) (by rw [hm, numbered_executions])
    · exact harrived.unmoved hx ha (by rw [hm, numbered_orders]) (by rw [hm, numbered_executions])
  | replaced k q p =>
    rw [hr] at hdelivers
    cases hdelivers
  | connected =>
    rw [hr] at hdelivers
    cases hdelivers
  | disconnected =>
    rw [hr] at hdelivers
    cases hdelivers

/-! ## What a list delivered leaves of the numbered reports -/

/-- Whether the mirror takes a report as one about its own account. -/
def VenueEvent.AddressedTo (e : VenueEvent) (m : BrokerState) : Prop :=
  match e.report with
  | .position p => p.accountId = "" ∨ p.accountId = m.account.accountId
  | .balances a => a.accountId = m.account.accountId ∧ a.currency = m.account.currency
  | .status _ _ | .fill _ _ | .replaced _ _ _ | .connected | .disconnected => False

def BrokerState.Carries (m : BrokerState) : VenueReport → Prop
  | .position p => m.positions.get? p.symbol = some p
  | .balances a => a.same m.account = true
  | .status _ _ | .fill _ _ | .replaced _ _ _ | .connected | .disconnected => True

def BrokerState.SameAbout (m m' : BrokerState) : Subject → Prop
  | .position symbol => m.positions.get? symbol = m'.positions.get? symbol
  | .balances => m.account.same m'.account = true
  | .order _ => True

variable {a b : BrokerAccount}

theorem BrokerAccount.same_iff : a.same b = true ↔
    { a with metadata := a.metadata.sorted } = { b with metadata := b.metadata.sorted } := by
  rw [BrokerAccount.same, decide_eq_true_iff]

theorem BrokerAccount.same_refl (a : BrokerAccount) : a.same a = true := same_iff.mpr rfl

theorem BrokerAccount.same_symm (h : a.same b = true) : b.same a = true :=
  same_iff.mpr (same_iff.mp h).symm

theorem BrokerAccount.same_trans {a b c : BrokerAccount} (hab : a.same b = true)
    (hbc : b.same c = true) : a.same c = true :=
  same_iff.mpr ((same_iff.mp hab).trans (same_iff.mp hbc))

variable {n : ℕ}

section
variable {m m₁ m₂ : BrokerState} {subject : Subject}

theorem BrokerState.SameAbout.symm (h : m.SameAbout m₁ subject) : m₁.SameAbout m subject := by
  cases subject with
  | order h => trivial
  | position symbol => exact Eq.symm h
  | balances => exact BrokerAccount.same_symm h

theorem BrokerState.SameAbout.trans (h : m.SameAbout m₁ subject) (h' : m₁.SameAbout m₂ subject) :
    m.SameAbout m₂ subject := by
  cases subject with
  | order h => trivial
  | position symbol => exact Eq.trans h h'
  | balances => exact BrokerAccount.same_trans h h'

theorem BrokerState.Carries.sameAbout {r : VenueReport} (hr : r.subject? = some subject)
    (h₁ : m₁.Carries r) (h₂ : m₂.Carries r) : m₁.SameAbout m₂ subject := by
  cases r with
  | position p =>
    obtain rfl := Option.some.inj hr
    exact Eq.trans h₁ (Eq.symm h₂)
  | balances a =>
    obtain rfl := Option.some.inj hr
    exact BrokerAccount.same_trans (BrokerAccount.same_symm h₁) h₂
  | replaced h q p =>
    obtain rfl := Option.some.inj hr
    trivial
  | status kind h => cases hr
  | fill claims x => cases hr
  | connected => cases hr
  | disconnected => cases hr

theorem BrokerState.Carries.of_sameAbout {r : VenueReport} (hr : r.subject? = some subject)
    (h₁ : m₁.Carries r) (h : m₁.SameAbout m₂ subject) : m₂.Carries r := by
  cases r with
  | position p =>
    obtain rfl := Option.some.inj hr
    exact Eq.trans (Eq.symm h) h₁
  | balances a =>
    obtain rfl := Option.some.inj hr
    exact BrokerAccount.same_trans h₁ h
  | replaced h q p => trivial
  | status kind h => cases hr
  | fill claims x => cases hr
  | connected => cases hr
  | disconnected => cases hr

theorem absoluteReport_numbered (m : BrokerState) (subject : Subject) {event : VenueEvent}
    (hn : event.sequence = some n) (holdsIt : Bool) (order : Option BrokerOrder)
    (news : BrokerState × LifecycleDecision) :
    ((absoluteReport m event subject holdsIt order news).1 = m ∧ m.Numbers subject n) ∨
      (m.Permits (some n) subject ∧ (absoluteReport m event subject holdsIt order news).1 =
        if holdsIt then m.numbered (some n) subject else news.1) := by
  rw [absoluteReport, hn]
  cases hgate : sequenceGate m (some n) subject holdsIt with
  | some outcome =>
    refine Or.inl ⟨rfl, ?_⟩
    have hnot : ¬ m.Permits (some n) subject := by
      rw [← sequenceGate_eq_none holdsIt, hgate]
      simp
    unfold BrokerState.Permits at hnot
    push Not at hnot
    exact hnot
  | none =>
    refine Or.inr ⟨(sequenceGate_eq_none _).mp hgate, ?_⟩
    dsimp only
    split_ifs
    · rw [restated, hn, if_neg (by simp)]
    · rfl

end

inductive ReportsMoved (m : BrokerState) (e : VenueEvent) (m' : BrokerState) : Prop where
  | unmoved : m'.venueSequences = m.venueSequences → m'.positions = m.positions →
      m'.account = m.account → (∀ s n, e.AddressedTo m → e.report.subject? = some s →
        e.sequence = some n → m.Numbers s n) → ReportsMoved m e m'
  | recorded (subject : Subject) (n : ℕ) : e.report.subject? = some subject →
      e.sequence = some n → e.AddressedTo m → m.Permits (some n) subject →
      m'.venueSequences = m.venueSequences.set subject n → m'.Carries e.report →
      (∀ s, s ≠ subject → m.SameAbout m' s) →
      m'.account.accountId = m.account.accountId → m'.account.currency = m.account.currency →
      ReportsMoved m e m'

theorem BrokerState.SameAbout.refl (m : BrokerState) (s : Subject) : m.SameAbout m s := by
  cases s with
  | order h => trivial
  | position symbol => exact Eq.refl _
  | balances => exact BrokerAccount.same_refl _

theorem ReportsMoved.of_numbers {m m' : BrokerState} {subject : Subject}
    (hsubject : e.report.subject? = some subject) (hn : e.sequence = some n) (hm : m' = m)
    (hk : m.Numbers subject n) : ReportsMoved m e m' := by
  subst hm
  refine .unmoved rfl rfl rfl fun s k _ hs hk' => ?_
  obtain rfl := Option.some.inj (hsubject.symm.trans hs)
  obtain rfl := Option.some.inj (hn.symm.trans hk')
  exact hk

theorem positionEvent_reports {m : BrokerState} {p : BrokerPosition} (hr : e.report = .position p)
    (hn : e.sequence = some n) : ReportsMoved m e (m.positionEvent e p).1 := by
  rw [BrokerState.positionEvent]
  split_ifs with haccount
  · refine .unmoved rfl rfl rfl fun s k ha _ _ => absurd ha ?_
    simp only [VenueEvent.AddressedTo, hr]
    tauto
  · have haddressed : e.AddressedTo m := by
      simp only [VenueEvent.AddressedTo, hr]
      tauto
    have hsubject : e.report.subject? = some (.position p.symbol) := by rw [hr]; rfl
    rcases absoluteReport_numbered m (.position p.symbol) hn
      (m.positions.get? p.symbol = some p) none _ with ⟨hm, hk⟩ | ⟨hp, hm⟩
    · exact .of_numbers hsubject hn hm hk
    · rw [hm]
      split_ifs with hheld
      · refine .recorded _ n hsubject hn haddressed hp rfl ?_ (fun s _ => .refl m s) rfl rfl
        rw [hr]
        change m.positions.get? p.symbol = some p
        simpa using hheld
      · refine .recorded _ n hsubject hn haddressed hp (by rw [hn]; rfl) ?_ ?_ ?_ ?_
        · rw [hr]
          change ({ m with positions := m.positions.put p }.numbered e.sequence
            (.position p.symbol)).positions.get? p.symbol = some p
          rw [numbered_positions]
          exact Register.get?_put_self m.positions p
        · intro s hs
          cases s with
          | order h => trivial
          | position symbol =>
            change m.positions.get? symbol = ({ m with positions := m.positions.put p }.numbered
              e.sequence (.position p.symbol)).positions.get? symbol
            rw [numbered_positions, Register.get?_put_of_ne]
            rintro rfl
            exact hs rfl
          | balances =>
            change m.account.same ({ m with positions := m.positions.put p }.numbered
              e.sequence (.position p.symbol)).account = true
            rw [numbered_account]
            exact BrokerAccount.same_refl _
        · rw [numbered_account]
        · rw [numbered_account]

theorem balancesEvent_reports {m : BrokerState} (hr : e.report = .balances a)
    (hn : e.sequence = some n) : ReportsMoved m e (m.balancesEvent e a).1 := by
  rw [BrokerState.balancesEvent]
  split_ifs with haccount hcurrency
  · refine .unmoved rfl rfl rfl fun s k ha _ _ => absurd ha ?_
    simp only [VenueEvent.AddressedTo, hr]
    tauto
  · refine .unmoved rfl rfl rfl fun s k ha _ _ => absurd ha ?_
    simp only [VenueEvent.AddressedTo, hr]
    tauto
  · rw [not_not] at haccount hcurrency
    have haddressed : e.AddressedTo m := by
      simp only [VenueEvent.AddressedTo, hr]
      exact ⟨haccount, hcurrency⟩
    have hsubject : e.report.subject? = some .balances := by rw [hr]; rfl
    rcases absoluteReport_numbered m .balances hn (a.same m.account) none _
      with ⟨hm, hk⟩ | ⟨hp, hm⟩
    · exact .of_numbers hsubject hn hm hk
    · rw [hm]
      split_ifs with hheld
      · refine .recorded _ n hsubject hn haddressed hp rfl ?_ (fun s _ => .refl m s) rfl rfl
        rw [hr]
        exact hheld
      · refine .recorded _ n hsubject hn haddressed hp (by rw [hn]; rfl) ?_ ?_ ?_ ?_
        · rw [hr]
          change a.same ({ m with account := a }.numbered e.sequence .balances).account = true
          rw [numbered_account]
          exact BrokerAccount.same_refl a
        · intro s hs
          cases s with
          | order h => trivial
          | position symbol =>
            change m.positions.get? symbol =
              ({ m with account := a }.numbered e.sequence .balances).positions.get? symbol
            rw [numbered_positions]
          | balances => exact absurd rfl hs
        · rw [numbered_account]
          exact haccount
        · rw [numbered_account]
          exact hcurrency

theorem applyVenueEvent_reports (m : BrokerState) {h : String} (hdelivers : e.Delivers h) :
    ReportsMoved m e (applyVenueEvent m e).1 := by
  have hnone : ∀ m' : BrokerState, m'.venueSequences = m.venueSequences →
      m'.positions = m.positions → m'.account = m.account → e.report.subject? = none →
      ReportsMoved m e m' := by
    intro m' hs hp ha hnone
    refine .unmoved hs hp ha fun s n _ hsubject _ => ?_
    rw [hnone] at hsubject
    cases hsubject
  rw [applyVenueEvent]
  unfold VenueEvent.Delivers at hdelivers
  cases hr : e.report with
  | status kind k =>
    rcases statusEvent_cases m e kind k with ⟨hm, _⟩ | ⟨o, target, _, _, hm⟩
    · exact hnone _ (by rw [hm]) (by rw [hm]) (by rw [hm]) (by rw [hr]; rfl)
    · exact hnone _ (by rw [hm]; rfl) (by rw [hm]; rfl) (by rw [hm]; rfl) (by rw [hr]; rfl)
  | fill claims x =>
    rcases fillEvent_cases m e x with ⟨hm, _⟩ | ⟨o, _, _, hm⟩
    · exact hnone _ (by rw [hm]) (by rw [hm]) (by rw [hm]) (by rw [hr]; rfl)
    · exact hnone _ (by rw [hm]; rfl) (by rw [hm]; rfl) (by rw [hm]; rfl) (by rw [hr]; rfl)
  | position p =>
    rw [hr] at hdelivers
    obtain ⟨n, hn⟩ := Option.isSome_iff_exists.mp hdelivers
    exact positionEvent_reports hr hn
  | balances a =>
    rw [hr] at hdelivers
    obtain ⟨n, hn⟩ := Option.isSome_iff_exists.mp hdelivers
    exact balancesEvent_reports hr hn
  | replaced k q p =>
    rw [hr] at hdelivers
    cases hdelivers
  | connected =>
    rw [hr] at hdelivers
    cases hdelivers
  | disconnected =>
    rw [hr] at hdelivers
    cases hdelivers

/-- What a list delivered leaves of the numbered reports: every one about the
    account recorded or superseded, and each subject as it was or as a report of the
    list says. -/
structure Reported (m : BrokerState) (l : List VenueEvent) (m' : BrokerState) : Prop where
  accountId : m'.account.accountId = m.account.accountId
  currency : m'.account.currency = m.account.currency
  known : ∀ e ∈ l, e.AddressedTo m → ∀ s n, e.report.subject? = some s → e.sequence = some n →
    m'.Numbers s n
  latest : ∀ s, (m'.venueSequences.get? s = m.venueSequences.get? s ∧ m.SameAbout m' s) ∨
    ∃ e ∈ l, ∃ n, e.report.subject? = some s ∧ e.AddressedTo m ∧ e.sequence = some n ∧
      m.Permits (some n) s ∧ m'.venueSequences.get? s = some n ∧ m'.Carries e.report

theorem VenueEvent.AddressedTo.congr {m m' : BrokerState}
    (hid : m'.account.accountId = m.account.accountId)
    (hcur : m'.account.currency = m.account.currency) : e.AddressedTo m' ↔ e.AddressedTo m := by
  unfold VenueEvent.AddressedTo
  rw [hid, hcur]

theorem Reported.step {m m₁ m₂ : BrokerState} {l : List VenueEvent} (hreported : Reported m l m₁)
    (hmoved : ReportsMoved m₁ e m₂) : Reported m (l ++ [e]) m₂ := by
  have hcongr : e.AddressedTo m₁ ↔ e.AddressedTo m :=
    VenueEvent.AddressedTo.congr hreported.accountId hreported.currency
  rcases hmoved with ⟨hseq, hpos, hacc, hknown⟩ |
    ⟨subject, n, hsubject, hn, haddressed, hpermits, hseq, hcarries, hother, hid, hcur⟩
  · have hsame : ∀ s, m₁.SameAbout m₂ s := by
      intro s
      cases s with
      | order h => trivial
      | position symbol => exact congrArg (Register.get? · symbol) hpos.symm
      | balances =>
        change m₁.account.same m₂.account = true
        rw [hacc]
        exact BrokerAccount.same_refl _
    constructor
    · rw [hacc, hreported.accountId]
    · rw [hacc, hreported.currency]
    · intro e' he' ha s k hs hk
      rw [List.mem_append, List.mem_singleton] at he'
      unfold BrokerState.Numbers
      rw [hseq]
      rcases he' with he' | rfl
      · exact hreported.known e' he' ha s k hs hk
      · exact hknown s k (hcongr.mpr ha) hs hk
    · intro s
      rw [hseq]
      rcases hreported.latest s with ⟨hs, hw⟩ | ⟨e', he', k, hs, ha, hk, hp, hget, hc⟩
      · exact Or.inl ⟨hs, hw.trans (hsame s)⟩
      · exact Or.inr ⟨e', List.mem_append_left _ he', k, hs, ha, hk, hp, hget,
          hc.of_sameAbout hs (hsame s)⟩
  · constructor
    · rw [hid, hreported.accountId]
    · rw [hcur, hreported.currency]
    · intro e' he' ha s k hs hk
      rw [List.mem_append, List.mem_singleton] at he'
      unfold BrokerState.Numbers
      rw [hseq]
      rcases he' with he' | rfl
      · exact numbered_numbers hpermits (hreported.known e' he' ha s k hs hk)
      · obtain rfl := Option.some.inj (hsubject.symm.trans hs)
        obtain rfl := Option.some.inj (hn.symm.trans hk)
        exact ⟨n, Dict.get?_set_self _ _ _, le_rfl⟩
    · intro s
      by_cases hs : s = subject
      · subst hs
        refine Or.inr ⟨e, by simp, n, hsubject, hcongr.mp haddressed, hn, ?_,
          by rw [hseq, Dict.get?_set_self], hcarries⟩
        intro last hlast
        rcases hreported.latest s with ⟨hget, _⟩ | ⟨_, _, k, _, _, _, hp, hget, _⟩
        · exact hpermits last (hget.trans hlast)
        · exact (hp last hlast).trans (hpermits k hget)
      · rw [hseq, Dict.get?_set_of_ne _ _ hs]
        rcases hreported.latest s with ⟨hget, hw⟩ | ⟨e', he', k, hs', ha, hk, hp, hget, hc⟩
        · exact Or.inl ⟨hget, hw.trans (hother s hs)⟩
        · exact Or.inr ⟨e', List.mem_append_left _ he', k, hs', ha, hk, hp, hget,
            hc.of_sameAbout hs' (hother s hs)⟩

/-! ## Any order -/

/-- A list of events about the working order `h` of the mirror, in no order. -/
structure DeliverableEvents (m : BrokerState) (h : String) (o : BrokerOrder) (l : List VenueEvent) :
    Prop where
  delivers : ∀ e ∈ l, e.Delivers h
  ids : ((fillsOf l).map (·.executionId)).Nodup
  fits : o.filledQuantity + filledBySum (fillsOf (l.filter m.unseen)) ≤ o.quantity
  numbers : ∀ e ∈ l, ∀ e' ∈ l, e.report.subject?.isSome → e.report.subject? = e'.report.subject? →
    e.sequence = e'.sequence → e.report = e'.report

section
variable {m : BrokerState} {h : String} {o : BrokerOrder} {l l' : List VenueEvent}

theorem mem_fillsOf : x ∈ fillsOf l ↔ ∃ e ∈ l, e.execution? = some x :=
  List.mem_filterMap

theorem takes_of_delivers (hdelivers : ∀ e ∈ l, e.Delivers h)
    (hfits : o.filledQuantity + filledBySum (fillsOf (l.filter m.unseen)) ≤ o.quantity) :
    o.Takes (fillsOf (l.filter m.unseen)) := by
  refine ⟨fun x hx => ?_, hfits⟩
  obtain ⟨e, he, hx⟩ := mem_fillsOf.mp hx
  have hd := hdelivers e (List.mem_of_mem_filter he)
  unfold VenueEvent.Delivers at hd
  unfold VenueEvent.execution? at hx
  cases hr : e.report with
  | fill claims y =>
    rw [hr] at hd hx
    obtain rfl := Option.some.inj hx
    exact hd.2
  | status kind k => simp [hr] at hx
  | replaced k q p => simp [hr] at hx
  | position p => simp [hr] at hx
  | balances a => simp [hr] at hx
  | connected => simp [hr] at hx
  | disconnected => simp [hr] at hx

/-- **What a whole list leaves of the orders and the fills.** -/
theorem arrived_delivered (ho : m.orders.get? h = some o) (hterm : o.isTerminal = false)
    (hdelivers : ∀ e ∈ l, e.Delivers h) (hids : ((fillsOf l).map (·.executionId)).Nodup)
    (hfits : o.filledQuantity + filledBySum (fillsOf (l.filter m.unseen)) ≤ o.quantity) :
    Arrived m h o l (delivered m l) := by
  induction l using List.reverseRecOn with
  | nil => exact ⟨ho, fun _ _ => rfl, by simp [delivered, fillsOf]⟩
  | append_singleton l e ih =>
    have htakes := takes_of_delivers hdelivers hfits
    rw [delivered, List.foldl_append, List.foldl_cons, List.foldl_nil]
    refine Arrived.step (ih ?_ ?_ ?_) hterm (hdelivers e (by simp)) hids htakes
    · intro e' he'
      exact hdelivers e' (List.mem_append_left _ he')
    · rw [fillsOf_append, List.map_append, List.nodup_append] at hids
      exact hids.1
    · rw [filter_append_singleton] at htakes
      split_ifs at htakes
      · rw [fillsOf_append] at htakes
        cases hx : e.execution? with
        | none =>
          rw [hx, Option.toList_none, List.append_nil] at htakes
          exact htakes.2
        | some x =>
          rw [hx, Option.toList_some] at htakes
          exact htakes.init.2
      · rw [List.append_nil] at htakes
        exact htakes.2

/-- **What a whole list leaves of the numbered reports.** -/
theorem reported_delivered (hdelivers : ∀ e ∈ l, e.Delivers h) : Reported m l (delivered m l) := by
  induction l using List.reverseRecOn with
  | nil => exact ⟨rfl, rfl, by simp, fun s => Or.inl ⟨rfl, .refl m s⟩⟩
  | append_singleton l e ih =>
    rw [delivered, List.foldl_append, List.foldl_cons, List.foldl_nil]
    refine Reported.step (ih ?_) (applyVenueEvent_reports _ (hdelivers e (by simp)))
    intro e' he'
    exact hdelivers e' (List.mem_append_left _ he')

theorem Reported.highest {m₁ : BrokerState} (hr : Reported m l m₁) {s : Subject} {n k : ℕ}
    (he : e ∈ l) (hs : e.report.subject? = some s) (ha : e.AddressedTo m) (hn : e.sequence = some n)
    (hget : m₁.venueSequences.get? s = some k) : n ≤ k := by
  obtain ⟨last, hlast, hle⟩ := hr.known e he ha s n hs hn
  rw [hget] at hlast
  exact hle.trans_eq (Option.some.inj hlast).symm

/-- **Two orders of one list leave each subject the same.** -/
theorem reported_agree {m₁ m₂ : BrokerState} (hperm : l.Perm l') (h₁ : Reported m l m₁)
    (h₂ : Reported m l' m₂)
    (hnumbers : ∀ e ∈ l, ∀ e' ∈ l, e.report.subject?.isSome →
      e.report.subject? = e'.report.subject? → e.sequence = e'.sequence → e.report = e'.report)
    (s : Subject) : m₁.venueSequences.get? s = m₂.venueSequences.get? s ∧ m₁.SameAbout m₂ s := by
  -- a number that the list permits is not superseded by the mirror's own
  have hbeats : ∀ {w : BrokerState} {l₀ : List VenueEvent}, Reported m l₀ w → ∀ e ∈ l₀, ∀ n,
      e.report.subject? = some s → e.AddressedTo m → e.sequence = some n →
      m.Permits (some n) s → w.venueSequences.get? s ≠ m.venueSequences.get? s := by
    intro w l₀ hw e he n hs ha hn hp hsame
    obtain ⟨last, hlast, hle⟩ := hw.known e he ha s n hs hn
    exact absurd (hp last (hsame ▸ hlast)) (not_lt.mpr hle)
  rcases h₁.latest s with ⟨hs₁, hw₁⟩ | ⟨e₁, he₁, n₁, hsub₁, ha₁, hn₁, hp₁, hget₁, hc₁⟩ <;>
    rcases h₂.latest s with ⟨hs₂, hw₂⟩ | ⟨e₂, he₂, n₂, hsub₂, ha₂, hn₂, hp₂, hget₂, hc₂⟩
  · exact ⟨hs₁.trans hs₂.symm, hw₁.symm.trans hw₂⟩
  · exact absurd hs₁ (hbeats h₁ e₂ (hperm.mem_iff.mpr he₂) n₂ hsub₂ ha₂ hn₂ hp₂)
  · exact absurd hs₂ (hbeats h₂ e₁ (hperm.mem_iff.mp he₁) n₁ hsub₁ ha₁ hn₁ hp₁)
  · have hle := h₁.highest (hperm.mem_iff.mpr he₂) hsub₂ ha₂ hn₂ hget₁
    have hge := h₂.highest (hperm.mem_iff.mp he₁) hsub₁ ha₁ hn₁ hget₂
    obtain rfl : n₁ = n₂ := le_antisymm hge hle
    have hsame : e₁.report = e₂.report :=
      hnumbers e₁ he₁ e₂ (hperm.mem_iff.mpr he₂) (by simp [hsub₁]) (hsub₁.trans hsub₂.symm)
        (hn₁.trans hn₂.symm)
    exact ⟨hget₁.trans hget₂.symm, hc₁.sameAbout hsub₁ (hsame ▸ hc₂)⟩

theorem DeliverableEvents.perm (hl : DeliverableEvents m h o l) (hperm : l.Perm l') :
    DeliverableEvents m h o l' := by
  constructor
  · intro e he
    exact hl.delivers e (hperm.mem_iff.mpr he)
  · exact ((fillsOf_perm hperm).map _).nodup_iff.mp hl.ids
  · rw [filledBySum_perm (fillsOf_perm (hperm.symm.filter m.unseen))]
    exact hl.fits
  · intro e he e' he'
    exact hl.numbers e (hperm.mem_iff.mpr he) e' (hperm.mem_iff.mpr he')

theorem Arrived.executions_agree {m₁ m₂ : BrokerState} (hperm : l.Perm l')
    (h₁ : Arrived m h o l m₁) (h₂ : Arrived m h o l' m₂) (i : String) :
    m₁.executions.get? i = m₂.executions.get? i := by
  ext x
  rw [h₁.executions, h₂.executions, mem_fillsOf_perm hperm]

end

/-! ## Where the order matters -/

/-- The venue's fill of `quantity` at `price` of the order `B-1`. -/
def fillReport (executionId : String) (quantity price : Decimal) : VenueEvent where
  report := .fill false {
    executionId := executionId
    brokerOrderId := "B-1"
    symbol := "AAPL"
    fillQuantity := quantity
    fillPrice := price
    commission := 0
    timestamp := 2 }
  timestamp := 2
  wellFormed := rfl

def acknowledgement : VenueEvent where
  report := .status .accepted "B-1"
  timestamp := 5

def orderAfter (l : List VenueEvent) : Option BrokerOrder :=
  (delivered sentMirror l).orders.get? "B-1"

def twoFillsAndAck : List VenueEvent :=
  [fillReport "E-1" 4 5, { acknowledgement with timestamp := 1, wellFormed := by decide },
    fillReport "E-2" 4 6]

/-- The order `sentMirror` holds. -/
def sentOrder : BrokerOrder :=
  { limitSubmission.toBrokerOrder with status := SubmissionAnswer.sent.status }

end AlphaLab
