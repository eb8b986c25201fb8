/-
  The index of unsettled transactions against the ledger.

  `IndexOf ledger unsettled`: the ledger's ids are its positions and the index is
  what its transactions imply, replayed.  Each transaction appended keeps it if
  the index moves as the replay's step does (`IndexOf.append`).

  The replay settles what is due at every exchange it meets; the operations do
  so only where they book something that settles later.  Where they do not, the
  index is kept if nothing in it is due (`Due`): that is what `KeepsIndex` of an
  exchange, of a payment's amendment and of a delivery's says.
-/
import AlphaLab.Portfolio.AmendmentAccounting

namespace AlphaLab

open Fallible

variable {s s' : PortfolioState}

/-! ## What the ledger implies -/

structure IndexOf (ledger : List Transaction) (unsettled : List PendingSettlement) : Prop where
  ids : ledger.map (·.transactionId) = List.range ledger.length
  index : unsettled = pendingFrom ledger

/-- Nothing in the index is due at `at_`. -/
def NoneDue (unsettled : List PendingSettlement) (at_ : Instant) : Prop :=
  ∀ e ∈ unsettled, e.pendingAt at_ = true

instance (unsettled : List PendingSettlement) (at_ : Instant) : Decidable (NoneDue unsettled at_) :=
  inferInstanceAs (Decidable (∀ e ∈ unsettled, _))

theorem noneDue_settlePending (unsettled : List PendingSettlement) (at_ : Instant)
    (new : Option PendingSettlement) : NoneDue (settlePending unsettled at_ new) at_ :=
  fun _ => settlePending_pendingAt

theorem settlePending_settlePending (unsettled : List PendingSettlement) (at_ : Instant)
    (new : Option PendingSettlement) :
    settlePending (settlePending unsettled at_) at_ new = settlePending unsettled at_ new := by
  simp only [settlePending, List.filter_filter, Bool.and_self]

variable {booked : List Transaction}

variable {change : PaymentChange}

section
variable {ledger : List Transaction} {unsettled : List PendingSettlement} {t : Transaction}

theorem ids_append (h : ledger.map (·.transactionId) = List.range ledger.length)
    (ht : t.transactionId = ledger.length) :
    (ledger ++ [t]).map (·.transactionId) = List.range (ledger ++ [t]).length := by
  rw [List.map_append, h, List.map_singleton, ht, List.length_append, List.length_singleton,
    List.range_succ]

/-- **The index is kept if it moves as the replay does.** -/
theorem IndexOf.append (h : IndexOf ledger unsettled) (ht : t.transactionId = ledger.length) :
    IndexOf (ledger ++ [t])
      (pendingStep (unsettled, ledger.filter (·.type = .exchange)) t).1 where
  ids := ids_append h.ids ht
  index := by rw [pendingFrom_append, h.index]

theorem IndexOf.append_other (h : IndexOf ledger unsettled) (ht : t.transactionId = ledger.length)
    (hkind : t.type.keepsPending = false) : IndexOf (ledger ++ [t]) unsettled := by
  have happ := h.append ht
  rwa [pendingStep, hkind, if_pos (by simp)] at happ

variable {pending : List PendingSettlement}

theorem pendingStep_booked (hkind : t.type.keepsPending = true)
    (hchange : t.metadata.paymentChange = none) :
    (pendingStep (pending, booked) t).1 =
      settlePending pending t.timestamp (t.metadata.settlesAt.map (entryOf t)) := by
  simp [pendingStep, hkind, hchange]

theorem pendingStep_delayed (hkind : t.type = .exchange)
    (hchange : t.metadata.paymentChange = some .delayed) :
    (pendingStep (pending, booked) t).1 =
      amendPending (settlePending pending t.timestamp) t (booked ++ [t]) := by
  simp [pendingStep, hkind, hchange, TransactionType.keepsPending]

theorem pendingStep_amended (hkind : t.type = .exchange)
    (hchange : t.metadata.paymentChange = some change) (hne : change ≠ .delayed) :
    (pendingStep (pending, booked) t).1 =
      settlePending (amendPending (settlePending pending t.timestamp) t (booked ++ [t]))
        t.timestamp (t.metadata.settlesAt.map (entryOf t)) := by
  simp [pendingStep, hkind, hchange, TransactionType.keepsPending, hne]

end

variable {sub : List Transaction}

theorem filterMap_findBooked (hids : (booked.map (·.transactionId)).Nodup)
    (hsub : ∀ t ∈ sub, t ∈ booked) :
    (sub.map (·.transactionId)).filterMap (findBooked booked) = sub := by
  have hfind : ∀ t ∈ booked, findBooked booked t.transactionId = some t := by
    intro t ht
    cases hf : findBooked booked t.transactionId with
    | none =>
      have hnone := List.find?_eq_none.mp hf t ht
      simp at hnone
    | some u =>
      have hu : u.transactionId = t.transactionId := by simpa using List.find?_some hf
      rw [List.inj_on_of_nodup_map hids (List.mem_of_find?_eq_some hf) ht hu]
  rw [List.filterMap_map]
  calc sub.filterMap (findBooked booked ∘ (·.transactionId)) = sub.filterMap some :=
        List.filterMap_congr fun t ht => hfind t (hsub t ht)
    _ = sub := List.filterMap_some

/-- An amendment re-dates the same transactions, whichever list holds them. -/
theorem amendPending_congr {q : List PendingSettlement} {t : Transaction}
    {booked booked' sub : List Transaction}
    (haffects : t.metadata.affects = some (sub.map (·.transactionId)))
    (hids : (booked.map (·.transactionId)).Nodup) (hids' : (booked'.map (·.transactionId)).Nodup)
    (hsub : ∀ u ∈ sub, u ∈ booked) (hsub' : ∀ u ∈ sub, u ∈ booked') :
    amendPending q t booked = amendPending q t booked' := by
  simp only [amendPending, haffects, Option.getD_some, filterMap_findBooked hids hsub,
    filterMap_findBooked hids' hsub']

abbrev Indexed (s : PortfolioState) : Prop := IndexOf s.ledger s.unsettled

/-- Cash booked alone leaves the index alone. -/
theorem IndexOf.bookCash {ledger : List Transaction} {unsettled : List PendingSettlement}
    (h : IndexOf ledger unsettled) {type : TransactionType} (hkind : type.keepsPending = false)
    (assetId : String) (quantity : Decimal) (currency : String) (timestamp : Instant)
    (metadata : Metadata) :
    IndexOf (AlphaLab.bookCash s ledger type assetId quantity currency timestamp metadata)
      unsettled :=
  h.append_other rfl hkind

theorem applyFill_indexed {f : Fill} (h : applyFill s f = .ok s') (hs : Indexed s) :
    Indexed s' := by
  obtain ⟨-, commission, pos, value, cash, realized, commissions, newPos, pnl, -, -, -, -, -, -, -,
    -, rfl⟩ := applyFill_ok h
  -- the ledger entry implies the entry of the index
  have hentry : ∀ settledCash, ((fillTransaction s f commission settledCash).metadata.settlesAt.map
      (entryOf (fillTransaction s f commission settledCash))) =
      fillPending (fillTransaction s f commission settledCash) f settledCash := by
    intro settledCash
    have hside : (if 0 < f.quantity then TransactionType.buy else .sell) ≠ .exchange := by
      split_ifs <;> simp
    cases hat : f.settlesAt with
    | none => simp [fillTransaction, fillPending, hat]
    | some settlesAt => simp [fillTransaction, fillPending, entryOf, hat, hside]
  have hkind : ∀ settledCash,
      (fillTransaction s f commission settledCash).type.keepsPending = true := by
    intro settledCash
    simp only [fillTransaction]
    split_ifs <;> rfl
  have hchange : ∀ settledCash,
      (fillTransaction s f commission settledCash).metadata.paymentChange = none := by
    intro settledCash
    simp only [fillTransaction]
    cases f.settlesAt <;> rfl
  have happ := hs.append (t := fillTransaction s f commission
    (cashImpact f.quantity value commission + if ¬ pos.paysNotional then pnl else 0)) rfl
  rw [pendingStep_booked (hkind _) (hchange _), hentry] at happ
  exact happ

theorem marked_indexed {held : List (String × Position)} {prices : Dict String Decimal}
    {timestamp : Instant} (h : marked s held prices timestamp = .ok s') (hs : Indexed s) :
    Indexed s' := by
  obtain ⟨m, hm, hs'⟩ := marked_ok h
  have hindex : IndexOf m.ledger s.unsettled := by
    refine foldlM_invariant (fun m : Marking => IndexOf m.ledger s.unsettled) hm hs ?_
    rintro ⟨asset, p⟩ _ m₁ m₂ hstep hm₁
    simp only [markOne] at hstep
    cases hprice : prices.get? asset with
    | none =>
      rw [hprice] at hstep
      exact pure_ok.mp hstep ▸ hm₁
    | some price =>
      simp only [hprice, bind_ok] at hstep
      obtain ⟨-, -, hstep⟩ := hstep
      split_ifs at hstep
      · exact pure_ok.mp hstep ▸ hm₁
      · simp only [bind_ok, pure_ok] at hstep
        obtain ⟨realized, -, rfl⟩ := hstep
        exact hm₁.append_other rfl rfl
  rcases hs' with rfl | rfl
  exacts [hs, hindex]

/-! ## Exchanges -/

/-- An exchange settles what is due, moves no cash, or finds nothing due. -/
def ExchangeBooking.KeepsIndex (x : ExchangeBooking) (s : PortfolioState) : Prop :=
  NoneDue s.unsettled x.timestamp ∨ x.deferred.isSome ∨
    (∃ leg ∈ x.received, (x.planned leg).isSome) ∨
    ∀ e ∈ x.consideration.entries, moneyOf s.account.currencyUnits e.2 e.1 = 0

/-- How the index stands against its ledger while an exchange is booked: as it
    was, or settled by the replay alone. -/
structure Consideration.Follows (m : Consideration) (s : PortfolioState) (at_ : Instant) :
    Prop where
  ids : m.ledger.map (·.transactionId) = List.range m.ledger.length
  follows : (m.ledger = s.ledger ∧ m.unsettled = s.unsettled) ∨
    pendingFrom m.ledger = settlePending m.unsettled at_

variable {m m' : Consideration}

variable {at_ : Instant}

/-- A transaction the exchange books without settling what is due is followed by
    the replay alone. -/
theorem Consideration.Follows.append (hs : Indexed s) (h : m.Follows s at_) {t : Transaction}
    (ht : t.transactionId = m.ledger.length) (hkind : t.type = .exchange) (hat : t.timestamp = at_)
    (hchange : t.metadata.paymentChange = none) {unsettled : List PendingSettlement}
    (hmoves : settlePending m.unsettled at_ (t.metadata.settlesAt.map (entryOf t)) = settlePending
      unsettled at_) (hledger : m'.ledger = m.ledger ++ [t]) (hunsettled : m'.unsettled = unsettled)
    : m'.Follows s at_ := by
  refine ⟨by rw [hledger]; exact ids_append h.ids ht, Or.inr ?_⟩
  have hstep : pendingFrom m'.ledger = settlePending (pendingFrom m.ledger) at_
      (t.metadata.settlesAt.map (entryOf t)) := by
    rw [hledger, pendingFrom_append, pendingStep_booked (by rw [hkind]; rfl) hchange, hat]
  rw [hstep, hunsettled, ← hmoves]
  rcases h.follows with ⟨hl, hu⟩ | hp
  · rw [hl, hu, hs.index]
  · rw [hp, settlePending_settlePending]

theorem Consideration.Follows.indexOf (hs : Indexed s) (h : m.Follows s at_)
    (hdue : (m.ledger = s.ledger ∧ m.unsettled = s.unsettled) ∨ NoneDue m.unsettled at_) :
    IndexOf m.ledger m.unsettled := by
  rcases h.follows with ⟨hl, hu⟩ | hp
  · exact hl ▸ hu ▸ hs
  · rcases hdue with ⟨hl, hu⟩ | hdue
    · exact hl ▸ hu ▸ hs
    · exact ⟨h.ids, by rw [hp, settlePending_of_pending hdue]⟩

variable {x : ExchangeBooking}

variable {entry : String × Decimal}

theorem payOne_follows (hs : Indexed s) (h : payOne s x m entry = .ok m')
    (hm : m.Follows s x.timestamp) : m'.Follows s x.timestamp := by
  obtain ⟨currency, amount⟩ := entry
  simp only [payOne, bind_ok] at h
  obtain ⟨a, -, h⟩ := h
  split_ifs at h with hzero
  · exact pure_ok.mp h ▸ hm
  · have h := (pure_ok.mp h).symm
    refine hm.append hs (t := paymentTransaction s x m.ledger currency a) rfl rfl rfl rfl ?_
      (by rw [h]) rfl
    rw [h]
    cases hd : x.deferred with
    | none => simp [paymentTransaction, hd]
    | some paysAt =>
      have hentry : entryOf (paymentTransaction s x m.ledger currency a) paysAt = {
          transactionId := (paymentTransaction s x m.ledger currency a).transactionId
          assetId := x.assetId
          currency := currency
          cash := a
          quantity := 0
          tradedAt := x.timestamp
          settlesAt := paysAt } := by
        simp [entryOf, paymentTransaction, hd]
      have hsettles : (paymentTransaction s x m.ledger currency a).metadata.settlesAt =
          some paysAt := by simp [paymentTransaction, hd]
      rw [hsettles, Option.map_some, hentry]
      exact (settlePending_of_pending (noneDue_settlePending _ _ _)).symm

variable {leg : ExchangedHolding}

theorem deliverOne_follows (hs : Indexed s) (h : deliverOne s x m leg = .ok m')
    (hm : m.Follows s x.timestamp) : m'.Follows s x.timestamp := by
  simp only [deliverOne] at h
  cases hp : x.planned leg with
  | none =>
    rw [hp] at h
    exact pure_ok.mp h ▸ hm
  | some planned =>
    simp only [hp, bind_ok, pure_ok] at h
    obtain ⟨basis, -, rfl⟩ := h
    refine hm.append hs (t := deliveryTransaction s x m.ledger leg basis planned.1 planned.2) rfl rfl
      rfl rfl ?_ rfl rfl
    exact (settlePending_of_pending (noneDue_settlePending _ _ _)).symm

/-- A payment moves nothing, or settles what is due where it is paid later. -/
theorem payOne_due (h : payOne s x m entry = .ok m') :
    (m'.ledger = m.ledger ∧ m'.unsettled = m.unsettled) ∨
      (moneyOf s.account.currencyUnits entry.2 entry.1 ≠ 0 ∧
        ((x.deferred = none ∧ m'.unsettled = m.unsettled) ∨ NoneDue m'.unsettled x.timestamp)) := by
  obtain ⟨currency, amount⟩ := entry
  simp only [payOne, bind_ok] at h
  obtain ⟨a, ha, h⟩ := h
  split_ifs at h with hzero
  · exact Or.inl (pure_ok.mp h ▸ ⟨rfl, rfl⟩)
  · refine Or.inr ⟨(moneyOf_eq ha) ▸ hzero, ?_⟩
    rw [← pure_ok.mp h]
    cases hd : x.deferred with
    | none => exact Or.inl ⟨rfl, rfl⟩
    | some paysAt =>
      right
      dsimp only
      exact noneDue_settlePending _ _ _

theorem deliverOne_due (h : deliverOne s x m leg = .ok m') :
    (x.planned leg = none ∧ m' = m) ∨ NoneDue m'.unsettled x.timestamp := by
  simp only [deliverOne] at h
  cases hp : x.planned leg with
  | none =>
    rw [hp] at h
    exact Or.inl ⟨rfl, (pure_ok.mp h).symm⟩
  | some planned =>
    simp only [hp, bind_ok, pure_ok] at h
    obtain ⟨basis, -, rfl⟩ := h
    right
    dsimp only
    exact noneDue_settlePending _ _ _

theorem deliverAll_due {legs : List ExchangedHolding} (h : legs.foldlM (deliverOne s x) m = .ok m')
    {P : Prop} (hm : P ∨ NoneDue m.unsettled x.timestamp) :
    (P ∧ m'.ledger = m.ledger ∧ m'.unsettled = m.unsettled) ∨ NoneDue m'.unsettled x.timestamp := by
  refine foldlM_invariant (fun m' : Consideration => (P ∧ m'.ledger = m.ledger ∧
    m'.unsettled = m.unsettled) ∨ NoneDue m'.unsettled x.timestamp) h ?_ ?_
  · rcases hm with hp | hdue
    exacts [Or.inl ⟨hp, rfl, rfl⟩, Or.inr hdue]
  · intro leg _ m₁ m₂ hstep hm₁
    rcases deliverOne_due hstep with ⟨-, rfl⟩ | hdue
    exacts [hm₁, Or.inr hdue]

/-- **An exchange keeps the index**, where it settles what is due or nothing is. -/
theorem applyExchange_indexed (h : applyExchange s x = .ok s') (hkeeps : x.KeepsIndex s)
    (hs : Indexed s) : Indexed s' := by
  obtain ⟨held, received, positions, paid, delivered, gain, realized, -, -, -, -, hpaid, hdel, -, -,
    rfl⟩ := applyExchange_ok h
  have hpaid' : paid.Follows s x.timestamp := by
    refine foldlM_invariant (Consideration.Follows · s x.timestamp) hpaid
      ⟨hs.ids, Or.inl ⟨rfl, rfl⟩⟩ fun e _ m m' hm hf => payOne_follows hs hm hf
  have hdel' : delivered.Follows s x.timestamp :=
    foldlM_invariant (Consideration.Follows · s x.timestamp) hdel hpaid'
      fun leg _ m m' hm hf => deliverOne_follows hs hm hf
  refine hdel'.indexOf hs ?_
  -- what the payments leave due, where no leg is delivered later
  have hpaidDue : (∃ leg ∈ x.received, (x.planned leg).isSome) ∨
      (paid.ledger = s.ledger ∧ paid.unsettled = s.unsettled) ∨
      NoneDue paid.unsettled x.timestamp := by
    rcases hkeeps with hfresh | hdeferred | hleg | hzero
    · right
      refine foldlM_invariant (fun m : Consideration => (m.ledger = s.ledger ∧
        m.unsettled = s.unsettled) ∨ NoneDue m.unsettled x.timestamp) hpaid (Or.inl ⟨rfl, rfl⟩) ?_
      intro e _ m m' hm hinv
      have hdue : NoneDue m.unsettled x.timestamp := by
        rcases hinv with ⟨-, hu⟩ | hdue
        exacts [hu ▸ hfresh, hdue]
      rcases payOne_due hm with ⟨-, hu⟩ | ⟨-, ⟨-, hu⟩ | hdue'⟩
      exacts [Or.inr (hu ▸ hdue), Or.inr (hu ▸ hdue), Or.inr hdue']
    · right
      refine foldlM_invariant (fun m : Consideration => (m.ledger = s.ledger ∧
        m.unsettled = s.unsettled) ∨ NoneDue m.unsettled x.timestamp) hpaid (Or.inl ⟨rfl, rfl⟩) ?_
      intro e _ m m' hm hinv
      rcases payOne_due hm with ⟨hl, hu⟩ | ⟨-, ⟨hnone, -⟩ | hdue'⟩
      · rwa [hl, hu]
      · rw [hnone] at hdeferred
        cases hdeferred
      · exact Or.inr hdue'
    · exact Or.inl hleg
    · right
      left
      refine foldlM_invariant (fun m : Consideration => m.ledger = s.ledger ∧
        m.unsettled = s.unsettled) hpaid ⟨rfl, rfl⟩ ?_
      intro e he m m' hm hinv
      rcases payOne_due hm with ⟨hl, hu⟩ | ⟨hne, -⟩
      · exact ⟨hl.trans hinv.1, hu.trans hinv.2⟩
      · exact absurd (hzero e ((List.mem_insertionSort _).mp he)) hne
  rcases hpaidDue with ⟨leg, hleg, hplanned⟩ | hdue
  · -- the leg delivered later settles what is due
    right
    obtain ⟨before, after, hsplit⟩ := List.append_of_mem hleg
    rw [hsplit, List.foldlM_append, bind_ok] at hdel
    obtain ⟨m₁, -, hdel⟩ := hdel
    rw [List.foldlM_cons, bind_ok] at hdel
    obtain ⟨m₂, hleg₂, hdel⟩ := hdel
    have hdue₂ : NoneDue m₂.unsettled x.timestamp := by
      rcases deliverOne_due hleg₂ with ⟨hnone, -⟩ | hdue
      · rw [hnone] at hplanned
        cases hplanned
      · exact hdue
    rcases deliverAll_due (P := False) hdel (Or.inr hdue₂) with ⟨hf, -⟩ | hdue
    exacts [hf.elim, hdue]
  · rcases deliverAll_due hdel hdue with ⟨⟨hl, hu⟩, hl', hu'⟩ | hdue
    exacts [Or.inl ⟨hl'.trans hl, hu'.trans hu⟩, Or.inr hdue]

/-! ## Amendments of a payment -/

/-- The entries a payment's chain leaves open when it is closed. -/
def openAfter (s : PortfolioState) (ids : List TransactionId) : List PendingSettlement :=
  s.unsettled.filter (·.transactionId ∉ ids)

/-- A payment's amendment amends nothing, settles what is due, or finds nothing due. -/
def PaymentAmendment.KeepsIndex (a : PaymentAmendment) (s : PortfolioState) : Prop :=
  let chain := paymentChain s.ledger a.holding a.effectiveAt a.currency
  let ids := chain.map (·.transactionId)
  chain ≠ [] → match a.change with
  | .delayed => True
  | .failed | .reversed => NoneDue (openAfter s ids) a.timestamp
  | .corrected => a.later.isSome ∨ (∃ e ∈ waitingOn s ids, e.pendingAt a.timestamp = true) ∨
      NoneDue s.unsettled a.timestamp
  | .replaced => a.later.isSome ∨ NoneDue (openAfter s ids) a.timestamp

theorem nodup_ids {ledger : List Transaction}
    (h : ledger.map (·.transactionId) = List.range ledger.length) :
    (ledger.map (·.transactionId)).Nodup :=
  h ▸ List.nodup_range

theorem close_settled (unsettled : List PendingSettlement) (at_ : Instant)
    (ids : List TransactionId) :
    (settlePending unsettled at_).filter (·.transactionId ∉ ids) =
      settlePending (unsettled.filter (·.transactionId ∉ ids)) at_ := by
  simp only [settlePending, List.filter_filter, Bool.and_comm]

theorem booked_ids {t : Transaction} (hs : Indexed s) (ht : t.transactionId = s.ledger.length)
    (hsub : sub.Sublist s.ledger) :
    (sub.map (·.transactionId)).Nodup ∧ ((sub ++ [t]).map (·.transactionId)).Nodup := by
  constructor
  · exact (nodup_ids hs.ids).sublist (hsub.map _)
  · exact (nodup_ids (ids_append hs.ids ht)).sublist ((hsub.append_right [t]).map _)

variable {chain : List Transaction}

/-- **An amendment that delays keeps the index**: the same entries are re-dated. -/
theorem delayed_indexed {t : Transaction} (hs : Indexed s) (ht : t.transactionId = s.ledger.length)
    (hkind : t.type = .exchange) (hchange : t.metadata.paymentChange = some .delayed)
    (haffects : t.metadata.affects = some (sub.map (·.transactionId))) (hsub : sub.Sublist chain)
    (hchain : chain.Sublist (s.ledger.filter (·.type = .exchange))) :
    IndexOf (s.ledger ++ [t]) (amendPending (settlePending s.unsettled t.timestamp) t chain) := by
  have happ := hs.append ht
  rw [pendingStep_delayed hkind hchange] at happ
  have hledger : chain.Sublist s.ledger := hchain.trans List.filter_sublist
  have hsame := amendPending_congr (q := settlePending s.unsettled t.timestamp) haffects
    (booked_ids hs ht hledger).1 (booked_ids hs ht List.filter_sublist).2
    (fun u hu => hsub.subset hu)
    (fun u hu => List.mem_append_left [t] (hchain.subset (hsub.subset hu)))
  rw [hsame]
  exact happ

/-- What the replay makes of an amendment that closes entries. -/
theorem closed_replay {t : Transaction} {ids : List TransactionId} (hs : Indexed s)
    (hkind : t.type = .exchange) (hchange : t.metadata.paymentChange = some change)
    (hcloses : change = .failed ∨ change = .reversed ∨ change = .replaced)
    (haffects : t.metadata.affects = some ids) (hsettles : t.metadata.settlesAt = none) :
    pendingFrom (s.ledger ++ [t]) = settlePending (openAfter s ids) t.timestamp := by
  have hne : change ≠ .delayed := by rcases hcloses with rfl | rfl | rfl <;> simp
  have hamend : ∀ p b, amendPending p t b = p.filter (·.transactionId ∉ ids) := by
    intro p b
    rcases hcloses with rfl | rfl | rfl <;> simp [amendPending, hchange, haffects]
  rw [pendingFrom_append, pendingStep_amended hkind hchange hne, hamend, hsettles, Option.map_none,
    close_settled, settlePending_settlePending, openAfter, hs.index]

structure Amended.Follows (m : Amended) (at_ : Instant) : Prop where
  ids : m.ledger.map (·.transactionId) = List.range m.ledger.length
  follows : ∀ new, settlePending (pendingFrom m.ledger) at_ new = settlePending m.unsettled at_ new

variable {a : PaymentAmendment}

variable {owed : Decimal}

/-- A payment written off closes its chain's entries; the replay settles what is due too. -/
theorem writeOff_closed {m : Amended} (h : writeOff s a chain owed = .ok m) (hs : Indexed s)
    (hcloses : a.change = .failed ∨ a.change = .reversed ∨ a.change = .replaced) :
    m.ledger.map (·.transactionId) = List.range m.ledger.length ∧
      m.unsettled = openAfter s (chain.map (·.transactionId)) ∧
      pendingFrom m.ledger = settlePending m.unsettled a.timestamp := by
  simp only [writeOff, bind_ok, pure_ok] at h
  obtain ⟨realized, -, rfl⟩ := h
  have hopen : amendPending s.unsettled (amendmentTransaction s a s.ledger (-owed) a.currency
      { affects := some (chain.map (·.transactionId)) }) chain =
      openAfter s (chain.map (·.transactionId)) := by
    rcases hcloses with hc | hc | hc <;> simp [amendPending, amendmentTransaction, hc, openAfter]
  refine ⟨ids_append hs.ids rfl, hopen, ?_⟩
  dsimp only
  rw [hopen]
  exact closed_replay hs rfl rfl hcloses rfl rfl

/-- A payment written off keeps the index, where nothing left open is due. -/
theorem writeOff_indexed {m : Amended} (h : writeOff s a chain owed = .ok m) (hs : Indexed s)
    (hcloses : a.change = .failed ∨ a.change = .reversed ∨ a.change = .replaced)
    (hdue : NoneDue (openAfter s (chain.map (·.transactionId))) a.timestamp) :
    IndexOf m.ledger m.unsettled := by
  obtain ⟨hids, hopen, hreplay⟩ := writeOff_closed h hs hcloses
  refine ⟨hids, ?_⟩
  rw [hreplay, hopen, settlePending_of_pending hdue]

/-- Cash an amendment adds keeps the index, where it settles later or nothing is due. -/
theorem owePayment_indexed {m m' : Amended} {amount : Decimal} {currency : String}
    {perUnit : Decimal} {settles : Option Instant}
    (h : owePayment s a m amount currency perUnit settles = .ok m')
    (hchange : a.change = .corrected ∨ a.change = .replaced) (hm : m.Follows a.timestamp)
    (hdue : settles.isSome ∨ NoneDue m.unsettled a.timestamp) : IndexOf m'.ledger m'.unsettled := by
  simp only [owePayment, bind_ok, pure_ok] at h
  obtain ⟨realized, -, rfl⟩ := h
  refine ⟨ids_append hm.ids rfl, ?_⟩
  set tx := amendmentTransaction s a m.ledger amount currency
    { perUnit := some perUnit, settlesAt := settles, settlementCash := settles.map fun _ => amount }
    with htx
  have hne : a.change ≠ .delayed := by rcases hchange with hc | hc <;> simp [hc]
  have hsame : ∀ p b, amendPending p tx b = p := by
    intro p b
    rcases hchange with hc | hc <;> simp [amendPending, htx, amendmentTransaction, hc]
  have hreplay : pendingFrom (m.ledger ++ [tx]) =
      settlePending m.unsettled a.timestamp (settles.map (entryOf tx)) := by
    rw [pendingFrom_append, pendingStep_amended rfl rfl hne, hsame]
    change settlePending (settlePending _ a.timestamp) a.timestamp _ = _
    rw [settlePending_settlePending, hm.follows]
    rfl
  dsimp only
  rw [hreplay]
  cases settles with
  | none =>
    have hdue : NoneDue m.unsettled a.timestamp := by simpa using hdue
    exact (settlePending_of_pending hdue).symm
  | some settlesAt =>
    congr 1

theorem paymentChain_sublist (ledger : List Transaction) (holding : String) (effectiveAt : Instant)
    (currency : String) : (paymentChain ledger holding effectiveAt currency).Sublist
      (ledger.filter (·.type = .exchange)) := by
  have hsplit : paymentChain ledger holding effectiveAt currency =
      (ledger.filter (·.type = .exchange)).filter
        (inPaymentChain holding effectiveAt currency) := by
    rw [paymentChain, List.filter_filter]
    refine List.filter_congr fun t _ => ?_
    by_cases hex : t.type = .exchange <;> simp [inPaymentChain, hex]
  rw [hsplit]
  exact List.filter_sublist

/-- **An amendment of a payment keeps the index**, where it settles what is due
    or nothing is. -/
theorem amendPayment_indexed (h : amendPayment s a = .ok s') (hkeeps : a.KeepsIndex s)
    (hs : Indexed s) : Indexed s' := by
  rcases amendPayment_ok h with rfl | ⟨hne, m, hm, rfl⟩
  · exact hs
  · unfold PaymentAmendment.KeepsIndex at hkeeps
    replace hkeeps := hkeeps hne
    clear hne
    have hchain := paymentChain_sublist s.ledger a.holding a.effectiveAt a.currency
    generalize paymentChain s.ledger a.holding a.effectiveAt a.currency = chain at *
    unfold changePayment at hm
    cases hchange : a.change with
    | delayed =>
      simp only [hchange, delayPayment, bind_ok, pure_ok] at hm
      obtain ⟨paysAt, -, -, -, rfl⟩ := hm
      exact delayed_indexed hs rfl rfl (by simp [amendmentTransaction, hchange]) rfl
        List.filter_sublist hchain
    | failed =>
      rw [hchange] at hm hkeeps
      exact writeOff_indexed hm hs (by simp [hchange]) hkeeps
    | reversed =>
      simp only [hchange, bind_ok] at hm hkeeps
      obtain ⟨-, -, hm⟩ := hm
      exact writeOff_indexed hm hs (by simp [hchange]) hkeeps
    | corrected =>
      simp only [hchange, correctPayment, bind_ok] at hm hkeeps
      obtain ⟨units, -, perUnit, -, owedAfter, -, hm⟩ := hm
      refine owePayment_indexed hm (by simp [hchange]) ⟨hs.ids, fun new => by rw [hs.index]⟩ ?_
      rcases hkeeps with hlater | ⟨e, he, hpending⟩ | hdue
      · left
        cases hl : a.later with
        | none => simp [hl] at hlater
        | some at_ => rw [Option.or_some]; simp
      · left
        have hmem : e.settlesAt ∈ ((waitingOn s (chain.map (·.transactionId))).filter
            (·.pendingAt a.timestamp)).map (·.settlesAt) :=
          List.mem_map_of_mem (List.mem_filter.mpr ⟨he, hpending⟩)
        cases hmax : (((waitingOn s (chain.map (·.transactionId))).filter
            (·.pendingAt a.timestamp)).map (·.settlesAt)).max? with
        | none =>
          rw [List.max?_eq_none_iff.mp hmax] at hmem
          cases hmem
        | some at_ => simp
      · exact Or.inr hdue
    | replaced =>
      simp only [hchange, replacePayment, bind_ok] at hm hkeeps
      obtain ⟨units, -, perUnit, -, into, -, out, hout, replacement, -, hm⟩ := hm
      obtain ⟨hids, hopen, hreplay⟩ := writeOff_closed hout hs (by simp [hchange])
      refine owePayment_indexed hm (by simp [hchange]) ⟨hids, fun new => ?_⟩ ?_
      · rw [hreplay, settlePending_settlePending]
      · rcases hkeeps with hlater | hdue
        exacts [Or.inl hlater, Or.inr (hopen ▸ hdue)]

/-- A delivery's amendment settles what is due, or finds nothing due. -/
def DeliveryAmendment.KeepsIndex (a : DeliveryAmendment) (s : PortfolioState) : Prop :=
  ∀ d ∈ deliveryOf s a, match a.change with
    | .delayed | .reversed | .replaced => True
    | .corrected => (∃ e ∈ waitingOn s d.unitIds, e.pendingAt a.timestamp = true) ∨
        NoneDue s.unsettled a.timestamp
    | .failed => NoneDue (openAfter s d.unitIds) a.timestamp

theorem deliveryOf_chain {a : DeliveryAmendment} {d : Delivery} (h : deliveryOf s a = some d) :
    d.chain.Sublist (s.ledger.filter (·.type = .exchange)) ∧
      d.unitIds = (d.chain.filter (·.metadata.delivers.isSome)).map (·.transactionId) := by
  simp only [deliveryOf, Option.map_eq_some_iff] at h
  obtain ⟨t, -, rfl⟩ := h
  refine ⟨?_, rfl⟩
  have hsplit : s.ledger.filter (inDeliveryChain a) =
      (s.ledger.filter (·.type = .exchange)).filter (inDeliveryChain a) := by
    rw [List.filter_filter]
    refine List.filter_congr fun t _ => ?_
    by_cases hex : t.type = .exchange <;> simp [inDeliveryChain, hex]
  dsimp only
  rw [hsplit]
  exact List.filter_sublist

theorem le_max?_getD {l : List Instant} {x : Instant} (hx : x ∈ l) (default : Instant) :
    x ≤ l.max?.getD default := by
  cases hmax : l.max? with
  | none =>
    rw [List.max?_eq_none_iff.mp hmax] at hx
    cases hx
  | some m => exact (List.max?_eq_some_iff.mp hmax).2 x hx

/-- **An amendment of a delivery keeps the index**, where it settles what is due
    or nothing is. -/
theorem amendDelivery_indexed {a : DeliveryAmendment} {parts : List (String × Decimal)}
    (h : amendDelivery s a = .ok (s', parts)) (hkeeps : a.KeepsIndex s) (hs : Indexed s) :
    Indexed s' := by
  rcases amendDelivery_ok h with ⟨-, rfl⟩ | ⟨d, ch, realized, hd, hch, -, rfl⟩
  · exact hs
  · have hdue := hkeeps d hd
    obtain ⟨hchain, hunits⟩ := deliveryOf_chain hd
    unfold changeDelivery at hch
    cases hchange : a.change with
    | delayed =>
      simp only [hchange, bind_ok, pure_ok] at hch
      obtain ⟨deliversAt, -, rfl⟩ := hch
      exact delayed_indexed hs rfl rfl (by simp [deliveryAmendmentTransaction, hchange])
        (congrArg some hunits) List.filter_sublist hchain
    | corrected =>
      simp only [hchange, bind_ok, pure_ok] at hch hdue
      obtain ⟨units, -, -, -, rfl⟩ := hch
      dsimp only
      set settles := ((waitingOn s d.unitIds).map (·.settlesAt)).max?.getD a.timestamp with hsettles
      set tx := deliveryAmendmentTransaction s a d {
        delivers := some (-(d.owed - units))
        deliveryTerms := some (d.original.metadata.deliveryTerms.getD {})
        deliveryBasis := some (-shareOf d.basis (d.owed - units) d.owed)
        settlesAt := some settles
        settlementCash := some 0 } with htx
      have hreplay : pendingFrom (s.ledger ++ [tx]) =
          settlePending s.unsettled a.timestamp (some (deliveryEntry tx settles)) := by
        have hchange' : tx.metadata.paymentChange = some .corrected := by
          simp [htx, deliveryAmendmentTransaction, hchange]
        have hsame : ∀ p b, amendPending p tx b = p := by
          intro p b
          simp [amendPending, hchange']
        rw [pendingFrom_append, pendingStep_amended rfl hchange' (by simp), hsame]
        change settlePending (settlePending _ a.timestamp) a.timestamp _ = _
        rw [settlePending_settlePending, hs.index]
        rfl
      refine ⟨ids_append hs.ids rfl, ?_⟩
      dsimp only
      rw [hreplay]
      split_ifs with hlater
      · rfl
      · -- what is corrected has settled: nothing in the index is due
        rcases hdue with ⟨e, he, hpending⟩ | hdue
        · have hle := le_max?_getD (List.mem_map_of_mem (f := (·.settlesAt)) he) a.timestamp
          have hlt : a.timestamp < e.settlesAt := of_decide_eq_true hpending
          exact absurd (hlt.trans_le hle) hlater
        · have hnot : (deliveryEntry tx settles).pendingAt a.timestamp = false :=
            decide_eq_false hlater
          have hkept : settlePending s.unsettled a.timestamp (some (deliveryEntry tx settles)) =
              settlePending s.unsettled a.timestamp := by
            simp [settlePending, hnot]
          rw [hkept, settlePending_of_pending hdue]
    | failed =>
      simp only [hchange, pure_ok] at hch hdue
      subst hch
      have hchange' : (deliveryAmendmentTransaction s a d
          { affects := some d.unitIds }).metadata.paymentChange = some .failed := by
        simp [deliveryAmendmentTransaction, hchange]
      refine ⟨ids_append hs.ids rfl, ?_⟩
      dsimp only
      rw [closed_replay hs rfl hchange' (Or.inl rfl) rfl rfl]
      change _ = settlePending _ a.timestamp
      rw [settlePending_of_pending hdue]
      simp [amendPending, hchange, openAfter, deliveryAmendmentTransaction]
    | reversed => simp [hchange] at hch
    | replaced => simp [hchange] at hch

end AlphaLab
