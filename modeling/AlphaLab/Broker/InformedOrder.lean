/-
  What acknowledgements and fills make of one order, whatever order they are
  delivered in.

  * `BrokerOrder.informed` is one of them, a list of them a fold.
-/
import AlphaLab.Broker.VenueEvents

namespace AlphaLab

open Rounding

def VenueEvent.execution? (e : VenueEvent) : Option BrokerExecution :=
  match e.report with
  | .fill _ x => some x
  | .status _ _ | .replaced _ _ _ | .position _ | .balances _ | .connected | .disconnected => none

def VenueEvent.acknowledges (e : VenueEvent) : Bool :=
  match e.report with
  | .status .accepted _ => true
  | _ => false

def fillsOf (l : List VenueEvent) : List BrokerExecution := l.filterMap VenueEvent.execution?

def acknowledgements (l : List VenueEvent) : List VenueEvent := l.filter VenueEvent.acknowledges

def filledBySum (fills : List BrokerExecution) : Decimal := (fills.map (·.fillQuantity)).sum

/-! ## What events make of one order -/

def BrokerOrder.informed (o : BrokerOrder) (e : VenueEvent) : BrokerOrder :=
  match e.report with
  | .status .accepted _ =>
    if o.status.canonicalStatus.unacknowledged then o.movedTo .accepted e.timestamp else o
  | .fill _ x => o.filledBy x
  | _ => o

section
variable (o : BrokerOrder)

/-- Only a fill or an acknowledgement changes an order. -/
theorem informed_cases (e : VenueEvent) :
    (e.execution? = none ∧ e.acknowledges = false ∧ o.informed e = o) ∨
      (e.execution? = none ∧ e.acknowledges = true ∧ o.informed e =
        if o.status.canonicalStatus.unacknowledged then o.movedTo .accepted e.timestamp else o) ∨
      ∃ x, e.execution? = some x ∧ e.acknowledges = false ∧ o.informed e = o.filledBy x := by
  unfold VenueEvent.execution? VenueEvent.acknowledges BrokerOrder.informed
  cases e.report with
  | status kind h => cases kind <;> simp
  | fill claims x => simp
  | _ => simp

theorem fillsOf_append (l : List VenueEvent) (e : VenueEvent) :
    fillsOf (l ++ [e]) = fillsOf l ++ e.execution?.toList := by
  rw [fillsOf, List.filterMap_append]
  cases h : e.execution? <;> simp [fillsOf, h]

theorem acknowledgements_append (l : List VenueEvent) (e : VenueEvent) :
    acknowledgements (l ++ [e]) = acknowledgements l ++ if e.acknowledges then [e] else [] := by
  cases h : e.acknowledges <;> simp [acknowledgements, h]

@[simp] theorem filledBySum_append (fills : List BrokerExecution) (x : BrokerExecution) :
    filledBySum (fills ++ [x]) = filledBySum fills + x.fillQuantity := by
  simp [filledBySum]

theorem informed_fixed (l : List VenueEvent) :
    (l.foldl BrokerOrder.informed o).brokerOrderId = o.brokerOrderId ∧
      (l.foldl BrokerOrder.informed o).quantity = o.quantity := by
  induction l using List.reverseRecOn with
  | nil => exact ⟨rfl, rfl⟩
  | append_singleton l e ih =>
    rw [List.foldl_append, List.foldl_cons, List.foldl_nil]
    rcases informed_cases (l.foldl BrokerOrder.informed o) e with ⟨_, _, h⟩ | ⟨_, _, h⟩ |
      ⟨x, _, _, h⟩
    · rwa [h]
    · rw [h]
      split_ifs
      · exact ih
      · exact ih
    · rwa [h]

/-- **The fills add up**, whatever their order. -/
theorem informed_filled (l : List VenueEvent) :
    (l.foldl BrokerOrder.informed o).filledQuantity =
      o.filledQuantity + filledBySum (fillsOf l) := by
  induction l using List.reverseRecOn with
  | nil => simp [fillsOf, filledBySum]
  | append_singleton l e ih =>
    rw [List.foldl_append, List.foldl_cons, List.foldl_nil, fillsOf_append]
    rcases informed_cases (l.foldl BrokerOrder.informed o) e with ⟨hx, _, h⟩ | ⟨hx, _, h⟩ |
      ⟨x, hx, _, h⟩
    · rw [h, hx, ih]
      simp
    · rw [h, hx, Option.toList_none, List.append_nil, ← ih]
      split_ifs <;> rfl
    · rw [h, hx, filledBy_filledQuantity, ih, Option.toList_some, filledBySum_append, add_assoc]

def statusAfterDelivery (fills : List BrokerExecution) (acknowledged : Bool) : BrokerStatus :=
  if fills = [] then
    if acknowledged ∧ o.status.canonicalStatus.unacknowledged = true then .canonical .accepted
    else o.status
  else statusAfterFill o (o.filledQuantity + filledBySum fills)

def BrokerOrder.Takes (fills : List BrokerExecution) : Prop :=
  (∀ x ∈ fills, 0 < x.fillQuantity) ∧ o.filledQuantity + filledBySum fills ≤ o.quantity

variable {o}

variable {fills : List BrokerExecution} {x : BrokerExecution}

theorem BrokerOrder.Takes.init (h : o.Takes (fills ++ [x])) : o.Takes fills := by
  obtain ⟨hpos, hfits⟩ := h
  refine ⟨fun y hy => hpos y (by simp [hy]), ?_⟩
  rw [filledBySum_append] at hfits
  linarith [hpos x (by simp)]

theorem BrokerOrder.Takes.not_complete (h : o.Takes (fills ++ [x])) :
    o.filledQuantity + filledBySum fills ≠ o.quantity := by
  obtain ⟨hpos, hfits⟩ := h
  rw [filledBySum_append] at hfits
  exact (by linarith [hpos x (by simp)] : o.filledQuantity + filledBySum fills < o.quantity).ne

/-- The status left by fills that do not complete an order. -/
theorem statusAfterDelivery_cases (acknowledged : Bool)
    (h : o.filledQuantity + filledBySum fills ≠ o.quantity) :
    statusAfterDelivery o fills acknowledged = o.status ∨
      (o.status.canonicalStatus.unacknowledged = true ∧
        statusAfterDelivery o fills acknowledged = .canonical .accepted) ∨
      (o.status.canonicalStatus ≠ .cancelPending ∧
        statusAfterDelivery o fills acknowledged = .canonical .partiallyFilled) := by
  rw [statusAfterDelivery]
  split_ifs with hnil hack
  · exact Or.inr (Or.inl ⟨hack.2, rfl⟩)
  · exact Or.inl rfl
  · rw [statusAfterFill, if_neg h]
    split_ifs with hpending
    · exact Or.inl rfl
    · exact Or.inr (Or.inr ⟨hpending, rfl⟩)

theorem statusAfterDelivery_working (acknowledged : Bool) (hterm : o.isTerminal = false)
    (h : o.filledQuantity + filledBySum fills ≠ o.quantity) :
    (statusAfterDelivery o fills acknowledged).canonicalStatus.isTerminal = false := by
  rcases statusAfterDelivery_cases acknowledged h with hs | ⟨_, hs⟩ | ⟨_, hs⟩
  · rw [hs, ← isTerminal_eq, hterm]
  · rw [hs]
    rfl
  · rw [hs]
    rfl

theorem statusAfterDelivery_acknowledged (fills : List BrokerExecution) (acknowledged : Bool) :
    statusAfterDelivery o fills true =
      if (statusAfterDelivery o fills acknowledged).canonicalStatus.unacknowledged then
        .canonical .accepted
      else statusAfterDelivery o fills acknowledged := by
  by_cases hnil : fills = []
  · simp only [statusAfterDelivery, if_pos hnil, true_and]
    cases acknowledged with
    | true =>
      by_cases hun : o.status.canonicalStatus.unacknowledged = true
      · simp only [hun, and_true, if_true, ite_self]
      · simp [hun]
    | false => simp
  · have hfill : (statusAfterFill o
        (o.filledQuantity + filledBySum fills)).canonicalStatus.unacknowledged = false := by
      rw [statusAfterFill]
      split_ifs with hall hpending
      · rfl
      · rw [hpending]
        rfl
      · rfl
    simp [statusAfterDelivery, hnil, hfill]

/-- A further fill leaves an order as a fill of it as it was would. -/
theorem statusAfterDelivery_filled {acknowledged : Bool} {w : BrokerOrder}
    (h : o.filledQuantity + filledBySum fills ≠ o.quantity) (hq : w.quantity = o.quantity)
    (hs : w.status = statusAfterDelivery o fills acknowledged) (b : Bool) :
    statusAfterFill w (o.filledQuantity + filledBySum fills + x.fillQuantity) =
      statusAfterDelivery o (fills ++ [x]) b := by
  have hne : fills ++ [x] ≠ [] := by simp
  rw [statusAfterDelivery, if_neg hne, filledBySum_append, ← add_assoc, statusAfterFill,
    statusAfterFill, hq, hs]
  refine if_congr Iff.rfl rfl ?_
  rcases statusAfterDelivery_cases acknowledged h with ht | ⟨hun, ht⟩ | ⟨hpending, ht⟩
  · rw [ht]
  · rw [ht, if_neg, if_neg]
    · intro hc
      rw [hc] at hun
      cases hun
    · rintro ⟨⟩
  · rw [ht, if_neg hpending, if_neg]
    rintro ⟨⟩

/-- **The status is that of the fills together**, or of the acknowledgement if there
    are none. -/
theorem informed_status {l : List VenueEvent} (htakes : o.Takes (fillsOf l)) :
    (l.foldl BrokerOrder.informed o).status =
      statusAfterDelivery o (fillsOf l) (acknowledgements l ≠ []) := by
  induction l using List.reverseRecOn with
  | nil => simp [statusAfterDelivery, fillsOf, acknowledgements]
  | append_singleton l e ih =>
    rw [List.foldl_append, List.foldl_cons, List.foldl_nil]
    rw [fillsOf_append] at htakes ⊢
    rw [acknowledgements_append]
    rcases informed_cases (l.foldl BrokerOrder.informed o) e with ⟨hx, ha, h⟩ | ⟨hx, ha, h⟩ |
      ⟨x, hx, ha, h⟩
    · rw [hx, Option.toList_none, List.append_nil] at htakes ⊢
      rw [h, ih htakes, ha]
      simp
    · rw [hx, Option.toList_none, List.append_nil] at htakes ⊢
      rw [h, apply_ite BrokerOrder.status, ih htakes, ha]
      have hack : decide (acknowledgements l ++ (if true = true then [e] else []) ≠ []) = true := by
        simp
      rw [hack, statusAfterDelivery_acknowledged _ (acknowledgements l ≠ [])]
      rfl
    · rw [hx, Option.toList_some] at htakes ⊢
      rw [h, BrokerOrder.filledBy]
      dsimp only
      rw [informed_filled]
      exact statusAfterDelivery_filled htakes.not_complete (informed_fixed o l).2 (ih htakes.init) _

/-! ## When an order was last updated -/

theorem informed_unacknowledged (l : List VenueEvent) :
    (l.foldl BrokerOrder.informed o).status.canonicalStatus.unacknowledged = true ↔
      o.status.canonicalStatus.unacknowledged = true ∧ fillsOf l = [] ∧
        acknowledgements l = [] := by
  induction l using List.reverseRecOn with
  | nil => simp [fillsOf, acknowledgements]
  | append_singleton l e ih =>
    rw [List.foldl_append, List.foldl_cons, List.foldl_nil, fillsOf_append,
      acknowledgements_append]
    rcases informed_cases (l.foldl BrokerOrder.informed o) e with ⟨hx, ha, h⟩ | ⟨hx, ha, h⟩ |
      ⟨x, hx, ha, h⟩
    · simp [h, hx, ha, ih]
    · have hacked : ∀ t, ((l.foldl BrokerOrder.informed o).movedTo .accepted
          t).status.canonicalStatus.unacknowledged = false := fun _ => rfl
      rw [h, hx, ha]
      simp only [Option.toList_none, List.append_nil, if_true]
      split_ifs with hun
      · simp [hacked]
      · simp [hun]
    · rw [h, hx, ha]
      have hfilled : ((l.foldl BrokerOrder.informed o).filledBy
          x).status.canonicalStatus.unacknowledged = false := by
        simp only [BrokerOrder.filledBy, statusAfterFill]
        split_ifs with hall hpending
        · rfl
        · rw [hpending]
          rfl
        · rfl
      simp [hfilled]

/-- No delivery takes back the time of an update. -/
theorem informed_updatedAt_ge (l : List VenueEvent) :
    o.updatedAt ≤ (l.foldl BrokerOrder.informed o).updatedAt ∧
      (∀ x ∈ fillsOf l, x.timestamp ≤ (l.foldl BrokerOrder.informed o).updatedAt) ∧
      (o.status.canonicalStatus.unacknowledged = true → fillsOf l = [] →
        acknowledgements l ≠ [] →
        ∃ a ∈ acknowledgements l, a.timestamp ≤ (l.foldl BrokerOrder.informed o).updatedAt) := by
  induction l using List.reverseRecOn with
  | nil => simp [fillsOf, acknowledgements]
  | append_singleton l e ih =>
    obtain ⟨hold, hfills, hacks⟩ := ih
    rw [List.foldl_append, List.foldl_cons, List.foldl_nil, fillsOf_append,
      acknowledgements_append]
    rcases informed_cases (l.foldl BrokerOrder.informed o) e with ⟨hx, ha, h⟩ | ⟨hx, ha, h⟩ |
      ⟨x, hx, ha, h⟩
    · rw [h, hx, ha]
      simpa using ⟨hold, hfills, hacks⟩
    · rw [h, hx, ha]
      simp only [Option.toList_none, List.append_nil, if_true]
      split_ifs with hun
      · refine ⟨le_max_of_le_left hold, fun x hx => le_max_of_le_left (hfills x hx), ?_⟩
        intro _ _ _
        exact ⟨e, by simp, le_max_right _ _⟩
      · refine ⟨hold, hfills, ?_⟩
        intro ho hnil _
        have hne : acknowledgements l ≠ [] := by
          intro hnone
          exact hun ((informed_unacknowledged l).mpr ⟨ho, hnil, hnone⟩)
        obtain ⟨a, hmem, hle⟩ := hacks ho hnil hne
        exact ⟨a, List.mem_append_left _ hmem, hle⟩
    · rw [h, hx, ha]
      simp only [Option.toList_some]
      refine ⟨le_max_of_le_left hold, ?_, by simp⟩
      intro y hy
      rw [List.mem_append, List.mem_singleton] at hy
      rcases hy with hy | rfl
      · exact le_max_of_le_left (hfills y hy)
      · exact le_max_right _ _

/-- The time of the last update is one of those delivered, or as it was. -/
theorem informed_updatedAt_eq (l : List VenueEvent) :
    (l.foldl BrokerOrder.informed o).updatedAt = o.updatedAt ∨
      (∃ x ∈ fillsOf l, (l.foldl BrokerOrder.informed o).updatedAt = x.timestamp) ∨
      (o.status.canonicalStatus.unacknowledged = true ∧
        ∃ a ∈ acknowledgements l, (l.foldl BrokerOrder.informed o).updatedAt = a.timestamp) := by
  induction l using List.reverseRecOn with
  | nil => exact Or.inl rfl
  | append_singleton l e ih =>
    have hkeep : (l.foldl BrokerOrder.informed o).updatedAt = o.updatedAt ∨
        (∃ x ∈ fillsOf (l ++ [e]), (l.foldl BrokerOrder.informed o).updatedAt = x.timestamp) ∨
        (o.status.canonicalStatus.unacknowledged = true ∧ ∃ a ∈ acknowledgements (l ++ [e]),
          (l.foldl BrokerOrder.informed o).updatedAt = a.timestamp) := by
      rw [fillsOf_append, acknowledgements_append]
      rcases ih with h | ⟨x, hx, h⟩ | ⟨ho, a, ha, h⟩
      · exact Or.inl h
      · exact Or.inr (Or.inl ⟨x, List.mem_append_left _ hx, h⟩)
      · exact Or.inr (Or.inr ⟨ho, a, List.mem_append_left _ ha, h⟩)
    rw [List.foldl_append, List.foldl_cons, List.foldl_nil]
    rcases informed_cases (l.foldl BrokerOrder.informed o) e with ⟨_, _, h⟩ | ⟨_, ha, h⟩ |
      ⟨x, hx, _, h⟩
    · rw [h]
      exact hkeep
    · rw [h]
      split_ifs with hun
      · rcases max_choice (l.foldl BrokerOrder.informed o).updatedAt e.timestamp with hmax | hmax
        · rw [BrokerOrder.movedTo, hmax]
          exact hkeep
        · refine Or.inr (Or.inr ⟨((informed_unacknowledged l).mp hun).1, e, ?_, hmax⟩)
          rw [acknowledgements_append, ha]
          simp
      · exact hkeep
    · rw [h]
      rcases max_choice (l.foldl BrokerOrder.informed o).updatedAt x.timestamp with hmax | hmax
      · rw [BrokerOrder.filledBy, hmax]
        exact hkeep
      · refine Or.inr (Or.inl ⟨x, ?_, hmax⟩)
        rw [fillsOf_append, hx]
        simp

/-- An acknowledgement that is no later than all else delivered: the order was
    acknowledged before, or nothing is filled, or some fill is later. -/
def BrokerOrder.Timely (o : BrokerOrder) (l : List VenueEvent) : Prop :=
  o.status.canonicalStatus.unacknowledged = false ∨
    (fillsOf l = [] ∧
      ∀ a ∈ acknowledgements l, ∀ b ∈ acknowledgements l, a.timestamp = b.timestamp) ∨
    ∀ a ∈ acknowledgements l, a.timestamp ≤ o.updatedAt ∨
      ∃ x ∈ fillsOf l, a.timestamp ≤ x.timestamp

section
variable {l l' : List VenueEvent}

theorem mem_fillsOf_perm (h : l.Perm l') (x : BrokerExecution) :
    x ∈ fillsOf l ↔ x ∈ fillsOf l' := (h.filterMap _).mem_iff

theorem mem_acknowledgements_perm (h : l.Perm l') (a : VenueEvent) :
    a ∈ acknowledgements l ↔ a ∈ acknowledgements l' := (h.filter _).mem_iff

theorem fillsOf_eq_nil_perm (h : l.Perm l') : fillsOf l = [] ↔ fillsOf l' = [] := by
  simp only [List.eq_nil_iff_forall_not_mem, mem_fillsOf_perm h]

theorem BrokerOrder.Timely.perm (h : l.Perm l') (ht : o.Timely l) : o.Timely l' := by
  unfold BrokerOrder.Timely at ht ⊢
  rw [fillsOf_eq_nil_perm h] at ht
  simpa only [mem_acknowledgements_perm h, mem_fillsOf_perm h] using ht

theorem informed_updatedAt_le (h : l.Perm l') (ht : o.Timely l) :
    (l.foldl BrokerOrder.informed o).updatedAt ≤ (l'.foldl BrokerOrder.informed o).updatedAt := by
  obtain ⟨hold, hfills, hacks⟩ := informed_updatedAt_ge (o := o) l'
  rcases informed_updatedAt_eq (o := o) l with hu | ⟨x, hx, hu⟩ | ⟨ho, a, ha, hu⟩
  · rw [hu]
    exact hold
  · rw [hu]
    exact hfills x ((mem_fillsOf_perm h x).mp hx)
  · rw [hu]
    rcases ht with hno | ⟨hnil, hsame⟩ | hlate
    · rw [ho] at hno
      cases hno
    · have ha' := (mem_acknowledgements_perm h a).mp ha
      obtain ⟨b, hb, hle⟩ := hacks ho ((fillsOf_eq_nil_perm h).mp hnil) (List.ne_nil_of_mem ha')
      rwa [hsame a ha b ((mem_acknowledgements_perm h b).mpr hb)]
    · rcases hlate a ha with hle | ⟨x, hx, hle⟩
      · exact hle.trans hold
      · exact hle.trans (hfills x ((mem_fillsOf_perm h x).mp hx))

/-- **A timely acknowledgement may arrive in any order.** -/
theorem informed_updatedAt (h : l.Perm l') (ht : o.Timely l) :
    (l.foldl BrokerOrder.informed o).updatedAt = (l'.foldl BrokerOrder.informed o).updatedAt :=
  le_antisymm (informed_updatedAt_le h ht) (informed_updatedAt_le h.symm (ht.perm h))

end

/-! ## The average price -/

def BrokerOrder.cost (o : BrokerOrder) (fills : List BrokerExecution) : Decimal :=
  o.filledQuantity * o.averageFillPrice + (fills.map fun x => x.fillQuantity * x.fillPrice).sum

/-- Fills that leave nothing to round before the last of them, whatever their
    order: what each costs, and the cost and the average of every part of them. -/
def BrokerOrder.ExactAverages (o : BrokerOrder) (fills : List BrokerExecution) : Prop :=
  0 ≤ o.filledQuantity ∧
    (∀ x ∈ fills, inContext (x.fillQuantity * x.fillPrice) = x.fillQuantity * x.fillPrice) ∧
    ∀ part : List BrokerExecution, part.Subperm fills → part.length < fills.length →
      inContext (o.cost part) = o.cost part ∧
      inContext (o.cost part / (o.filledQuantity + filledBySum part)) =
        o.cost part / (o.filledQuantity + filledBySum part)

theorem filledBySum_pos (h : ∀ x ∈ fills, 0 < x.fillQuantity) (hne : fills ≠ []) :
    0 < filledBySum fills := by
  refine List.sum_pos _ ?_ (by simpa using hne)
  intro q hq
  obtain ⟨x, hx, rfl⟩ := List.mem_map.mp hq
  exact h x hx

/-- **The average is that of the fills together**, rounded once. -/
theorem informed_average (hexact : o.ExactAverages fills) (hpos : ∀ x ∈ fills, 0 < x.fillQuantity)
    (l : List VenueEvent) (hl : (fillsOf l).Subperm fills) :
    (l.foldl BrokerOrder.informed o).averageFillPrice =
      if fillsOf l = [] then o.averageFillPrice
      else divide (inContext (o.cost (fillsOf l))) (o.filledQuantity + filledBySum (fillsOf l)) := by
  obtain ⟨hfilled, hprices, hparts⟩ := hexact
  induction l using List.reverseRecOn with
  | nil => simp [fillsOf]
  | append_singleton l e ih =>
    rw [List.foldl_append, List.foldl_cons, List.foldl_nil]
    rw [fillsOf_append] at hl ⊢
    rcases informed_cases (l.foldl BrokerOrder.informed o) e with ⟨hx, _, h⟩ | ⟨hx, _, h⟩ |
      ⟨x, hx, _, h⟩
    · rw [hx, Option.toList_none, List.append_nil] at hl ⊢
      rw [h, ih hl]
    · rw [hx, Option.toList_none, List.append_nil] at hl ⊢
      rw [h, apply_ite BrokerOrder.averageFillPrice, BrokerOrder.movedTo, ite_self, ih hl]
    · rw [hx, Option.toList_some] at hl ⊢
      have hpart : (fillsOf l).Subperm fills := (List.sublist_append_left _ _).subperm.trans hl
      have hshort : (fillsOf l).length < fills.length := by
        have hlen := hl.length_le
        rw [List.length_append, List.length_singleton] at hlen
        omega
      obtain ⟨hcost, hmean⟩ := hparts (fillsOf l) hpart hshort
      have hxmem : x ∈ fills := hl.subset (by simp)
      -- the average so far times what it is of is the cost so far, exactly
      have hsofar : multiply (o.filledQuantity + filledBySum (fillsOf l))
          (l.foldl BrokerOrder.informed o).averageFillPrice = o.cost (fillsOf l) := by
        rw [ih hpart]
        split_ifs with hnil
        · rw [hnil] at hcost ⊢
          simpa [multiply, BrokerOrder.cost, filledBySum] using hcost
        · have hsum : 0 < filledBySum (fillsOf l) :=
            filledBySum_pos (fun y hy => hpos y (hpart.subset hy)) hnil
          rw [hcost, divide, hmean, multiply, mul_div_cancel₀ _ (by linarith), hcost]
      have hall : o.cost (fillsOf l ++ [x]) = o.cost (fillsOf l) + x.fillQuantity * x.fillPrice := by
        simp [BrokerOrder.cost, add_assoc]
      have hne : fillsOf l ++ [x] ≠ [] := by simp
      rw [h, if_neg hne, BrokerOrder.filledBy]
      dsimp only
      rw [informed_filled, averageAfter, hsofar, multiply, hprices x hxmem, add, ← hall,
        filledBySum_append, add_assoc]

section
variable {l l' : List VenueEvent}

theorem fillsOf_perm (hperm : l.Perm l') : (fillsOf l).Perm (fillsOf l') := hperm.filterMap _

theorem filledBySum_perm {fills fills' : List BrokerExecution} (hperm : fills.Perm fills') :
    filledBySum fills = filledBySum fills' := (hperm.map _).sum_eq

theorem cost_perm {fills fills' : List BrokerExecution} (hperm : fills.Perm fills') :
    o.cost fills = o.cost fills' := by
  rw [BrokerOrder.cost, BrokerOrder.cost, (hperm.map _).sum_eq]

/-- **Fills that round nothing average the same**, whatever their order. -/
theorem informed_average_perm (hperm : l.Perm l') (hexact : o.ExactAverages (fillsOf l))
    (hpos : ∀ x ∈ fillsOf l, 0 < x.fillQuantity) :
    (l.foldl BrokerOrder.informed o).averageFillPrice =
      (l'.foldl BrokerOrder.informed o).averageFillPrice := by
  have hfills := fillsOf_perm hperm
  rw [informed_average hexact hpos l (List.Perm.refl _).subperm,
    informed_average hexact hpos l' hfills.symm.subperm, cost_perm hfills, filledBySum_perm hfills]
  exact if_congr (fillsOf_eq_nil_perm hperm) rfl rfl

end

end

end AlphaLab
