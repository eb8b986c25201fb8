/-
  The marks a book waits for over runs, and whether its snapshot reads back.

  `runs_read_back`: after any run whose exchanges and failed deliveries close no
  position that still waits for a mark, the marks are held and the snapshot is
  read back.  A position a fill priced and a corporate action closed stays among
  the marks (`bought_out_unread`), and the reader refuses it.
-/
import AlphaLab.Portfolio.SnapshotJson
import AlphaLab.Runtime.IndexRuns

namespace AlphaLab

open Fallible

variable {s s' : PortfolioState}

def MarksHeld (s : PortfolioState) : Prop := ∀ mark ∈ s.pendingMarks, mark ∈ s.positions.keys

variable {units : CurrencyUnits} {positions : Dict String Position}

theorem assetIds_eq_keys (hwell : WellBooked units positions) :
    positions.values.map (·.assetId) = positions.keys := by
  rw [Dict.values, Dict.keys, List.map_map]
  refine List.map_congr_left fun e he => ?_
  exact (hwell e.1 e.2 ((positions.get?_eq_some).mpr he)).1

/-! ## What closes a position -/

/-- Whether a request takes every unit of the holding and retains none. -/
def ExchangeRequest.closes (r : ExchangeRequest) (held : Position) : Bool :=
  r.exchange.retainedBasisShare.isNone &&
    r.part.all fun part => decide (part.values.sum = held.quantity)

/-- Whether an amendment of a delivery writes off every unit held of its leg. -/
def DeliveryAmendment.closes (s : PortfolioState) (a : DeliveryAmendment) : Bool :=
  (deliveryOf s a).any fun d => decide (writtenOff a d ≠ 0) &&
    (s.positions.get? a.assetId).any fun p => decide (p.quantity = writtenOff a d)

/-- A call that closes no position whose mark is pending, unless it is a fill. -/
def KeepsMarks (s : PortfolioState) : PortfolioCall → Prop
  | .exchange _ r => ∀ held ∈ s.positions.get? r.exchange.assetId, held.quantity ≠ 0 →
      r.closes held = true → r.exchange.assetId ∉ s.pendingMarks
  | .amendDelivery a => a.closes s = true → a.assetId ∉ s.pendingMarks
  | _ => True

theorem sum_taken (part : Dict String Decimal) :
    (((part.entries.insertionSort fun a b => a.1 ≤ b.1).filter (·.2 ≠ 0)).map Prod.snd).sum =
      part.values.sum := by
  have hzero : ∀ l : List (String × Decimal), ((l.filter (·.2 ≠ 0)).map Prod.snd).sum =
      (l.map Prod.snd).sum := by
    intro l
    induction l with
    | nil => rfl
    | cons e l ih =>
      by_cases he : e.2 = 0
      · simpa [he] using ih
      · simpa [he] using ih
  rw [hzero, Dict.values]
  exact ((List.perm_insertionSort _ part.entries).map Prod.snd).sum_eq

variable {held : Position}

variable {ctx : ExchangeContext} {r : ExchangeRequest}

theorem takenPart_kept {taken : ExchangedPart} (h : takenPart ctx units held r = .ok taken) :
    (taken.kept.getD (0, 0)).1 = 0 ↔
      (r.part.all fun part => decide (part.values.sum = held.quantity)) = true := by
  unfold takenPart at h
  cases hpart : r.part with
  | none =>
    rw [hpart] at h
    simp only [pure_ok] at h
    subst h
    simp
  | some part =>
    rw [hpart] at h
    simp only [exchangedPart] at h
    split at h
    · cases h
    · split_ifs at h with hq
      · rw [pure_ok] at h
        subst h
        rw [sum_taken] at hq
        simp [hq]
      · simp only [bind_ok, pure_ok] at h
        obtain ⟨basis, -, rfl⟩ := h
        rw [sum_taken] at hq
        simp only [Option.getD_some, subtract, inContext_eq_zero, Option.all_some,
          decide_eq_true_eq, sum_taken, sub_eq_zero]
        exact eq_comm

theorem exchangeBooking_closes {booking : ExchangeBooking}
    (h : exchangeBooking ctx units held r = .ok booking) :
    booking.retainedBasis = none ∧ (booking.kept.getD (0, 0)).1 = 0 ↔ r.closes held = true := by
  obtain ⟨taken, plan, parts, htaken, hplan, -, rfl⟩ := exchangeBooking_ok h
  have hretained : plan.retainedBasis =
      r.exchange.retainedBasisShare.map (multiply taken.exchanged.basis ·) := by
    simp only [exchangePlan, bind_ok, pure_ok] at hplan
    obtain ⟨_, -, _, -, rfl⟩ := hplan
    rfl
  simp only [ExchangeRequest.closes, Bool.and_eq_true, ← takenPart_kept htaken, hretained,
    Option.map_eq_none_iff, Option.isNone_iff_eq_none]

/-! ## What each operation holds -/

variable {timestamp : Instant}

variable {prices : Dict String Decimal} {asset : String}

theorem markOne_keys {m m' : Marking} {held : String × Position}
    (h : markOne s prices timestamp m held = .ok m') (hm : asset ∈ m.positions.keys) :
    asset ∈ m'.positions.keys := by
  obtain ⟨name, position⟩ := held
  simp only [markOne] at h
  split at h
  · rw [pure_ok] at h
    exact h ▸ hm
  · simp only [bind_ok] at h
    obtain ⟨-, -, h⟩ := h
    split_ifs at h
    · rw [pure_ok] at h
      subst h
      exact (Dict.mem_keys_set _).mpr (Or.inr hm)
    · simp only [bind_ok, pure_ok] at h
      obtain ⟨_, -, rfl⟩ := h
      exact (Dict.mem_keys_set _).mpr (Or.inr hm)

theorem marked_marksHeld {held : List (String × Position)}
    (h : marked s held prices timestamp = .ok s') (hs : MarksHeld s) : MarksHeld s' := by
  obtain ⟨m, hm, rfl | rfl⟩ := marked_ok h
  · exact hs
  · intro mark hmark
    obtain ⟨hpending, -⟩ := SortedSet.mem_remove.mp hmark
    refine foldlM_invariant (fun m => mark ∈ m.positions.keys) hm (hs mark hpending) ?_
    intro _ _ m m' hstep
    exact markOne_keys hstep

theorem applyFill_marksHeld {f : Fill} (h : applyFill s f = .ok s') (hs : MarksHeld s) :
    MarksHeld s' := by
  obtain ⟨-, _, _, _, _, _, _, newPos, _, -, -, -, -, -, -, -, -, rfl⟩ := applyFill_ok h
  intro mark hmark
  by_cases hclosed : newPos.quantity = 0
  · simp only [if_pos hclosed, SortedSet.mem_remove, decide_eq_false_iff_not] at hmark ⊢
    exact (Dict.mem_keys_delete _).mpr ⟨hmark.2, hs mark hmark.1⟩
  · simp only [if_neg hclosed, SortedSet.mem_insert] at hmark ⊢
    exact (Dict.mem_keys_set _).mpr (hmark.imp id (hs mark))

theorem receiveLeg_keys {positions positions' : Dict String Position} {leg : ExchangedHolding}
    (h : receiveLeg units timestamp positions leg = .ok positions') (ha : asset ∈ positions.keys) :
    asset ∈ positions'.keys := by
  simp only [receiveLeg, bind_ok] at h
  obtain ⟨basis, -, h⟩ := h
  split at h
  · simp only [bind_ok, pure_ok] at h
    obtain ⟨-, -, rfl⟩ := h
    exact (Dict.mem_keys_set _).mpr (Or.inr ha)
  · simp only [bind_ok, pure_ok] at h
    obtain ⟨_, -, rfl⟩ := h
    exact (Dict.mem_keys_set _).mpr (Or.inr ha)

variable {x : ExchangeBooking}

/-- The exchanged holding is gone iff none of it is retained and none kept. -/
theorem exchangedHolding_keys {positions positions' : Dict String Position}
    (h : exchangedHolding units x held positions = .ok positions')
    (hheld : x.assetId ∈ positions.keys) (asset : String) :
    asset ∈ positions'.keys ↔ asset ∈ positions.keys ∧
      (asset = x.assetId → ¬ (x.retainedBasis = none ∧ (x.kept.getD (0, 0)).1 = 0)) := by
  have hset : ∀ p, (asset ∈ (positions.set x.assetId p).keys ↔ asset ∈ positions.keys) := by
    intro p
    rw [Dict.mem_keys_set]
    exact ⟨fun h => h.elim (· ▸ hheld) id, Or.inr⟩
  simp only [exchangedHolding] at h
  split at h
  next hretained =>
    split_ifs at h with hkept
    · rw [pure_ok] at h
      subst h
      rw [Dict.mem_keys_delete]
      tauto
    · rw [pure_ok] at h
      subst h
      rw [hset]
      tauto
  next retained hretained =>
    simp only [bind_ok, pure_ok] at h
    obtain ⟨_, -, rfl⟩ := h
    rw [hset]
    simp [hretained]

theorem applyExchange_marksHeld (h : applyExchange s x = .ok s') (hs : MarksHeld s) : MarksHeld s' ↔
      (x.retainedBasis = none ∧ (x.kept.getD (0, 0)).1 = 0 → x.assetId ∉ s.pendingMarks) := by
  obtain ⟨held, received, positions, _, _, _, _, hget, -, hrec, hpos, -, -, -, -, rfl⟩ :=
    applyExchange_ok h
  have hreceived : ∀ asset ∈ s.positions.keys, asset ∈ received.keys := by
    intro asset hasset
    refine foldlM_invariant (fun p : Dict String Position => asset ∈ p.keys) hrec hasset ?_
    intro _ _ _ _ hstep
    exact receiveLeg_keys hstep
  have hkeys := exchangedHolding_keys hpos (hreceived _ ((Dict.mem_keys_iff _).mpr ⟨held, hget⟩))
  constructor
  · intro hheld hcloses hmark
    exact ((hkeys _).mp (hheld _ hmark)).2 rfl hcloses
  · intro hnot mark hmark
    refine (hkeys _).mpr ⟨hreceived _ (hs _ hmark), ?_⟩
    rintro rfl hcloses
    exact hnot hcloses hmark

theorem amendDelivery_marksHeld {a : DeliveryAmendment} {parts : List (String × Decimal)}
    (h : amendDelivery s a = .ok (s', parts)) (hs : MarksHeld s) :
    MarksHeld s' ↔ (a.closes s = true → a.assetId ∉ s.pendingMarks) := by
  rcases amendDelivery_ok h with ⟨hnone, rfl⟩ | ⟨d, ch, _, hd, hch, -, rfl⟩
  · simpa [DeliveryAmendment.closes, hnone] using hs
  · obtain ⟨hoff, -⟩ := changeDelivery_spec hch
    have hset : ∀ p : Position, ∀ q, s.positions.get? a.assetId = some q → ∀ asset,
        (asset ∈ (s.positions.set a.assetId p).keys ↔ asset ∈ s.positions.keys) := by
      intro p q hq asset
      rw [Dict.mem_keys_set]
      exact ⟨fun h => h.elim (fun h => h ▸ (Dict.mem_keys_iff _).mpr ⟨q, hq⟩) id, Or.inr⟩
    simp only [MarksHeld, DeliveryAmendment.closes, hd, Option.any_some, ← hoff] at hs ⊢
    by_cases hzero : ch.writtenOff = 0
    · simpa [hzero] using hs
    simp only [if_neg hzero, writeOffUnits]
    cases hget : s.positions.get? a.assetId with
    | none => simpa [hzero] using hs
    | some p =>
      by_cases hclosed : p.quantity = ch.writtenOff
      · simp only [hclosed, sub_self, if_true, Dict.mem_keys_delete, Option.any_some]
        constructor
        · intro hheld _ hmark
          exact (hheld _ hmark).1 rfl
        · intro hnot mark hmark
          refine ⟨?_, hs _ hmark⟩
          rintro rfl
          exact hnot (by simp [hzero]) hmark
      · have hne : p.quantity - ch.writtenOff ≠ 0 := sub_ne_zero.mpr hclosed
        simp only [if_neg hne, hset _ _ hget]
        simpa [hzero, hclosed] using hs

/-- **A call keeps the marks held iff it closes no position that waits for one.** -/
theorem apply_marksHeld {c : PortfolioCall} (h : c.apply s = .ok s') (hs : MarksHeld s) :
    MarksHeld s' ↔ KeepsMarks s c := by
  cases c <;> simp only [PortfolioCall.apply, inPortfolio_ok, map_fst_ok, pure_ok] at h
  case deposit =>
    obtain ⟨_, -, rfl⟩ := applyDeposit_ok h
    exact iff_of_true hs trivial
  case withdraw =>
    obtain ⟨_, _, -, -, rfl⟩ := applyWithdrawal_ok h
    exact iff_of_true hs trivial
  case convert =>
    obtain ⟨_, h⟩ := h
    obtain ⟨_, _, -, -, -, rfl⟩ := convertCash_ok h
    exact iff_of_true hs trivial
  case fill => exact iff_of_true (applyFill_marksHeld h hs) trivial
  case updateMarketPrices => exact iff_of_true (marked_marksHeld h hs) trivial
  case markChanged =>
    refine iff_of_true ?_ trivial
    rcases markChanged_ok h with rfl | ⟨held, -, h⟩
    exacts [hs, marked_marksHeld h hs]
  case recordAccrual => exact iff_of_true (h ▸ hs) trivial
  case closeAccrual => exact iff_of_true (h ▸ hs) trivial
  case cashFlow =>
    obtain ⟨_, _, -, -, rfl⟩ := applyCashFlow_ok h
    exact iff_of_true hs trivial
  case split =>
    obtain ⟨_, -, rfl⟩ := applySplit_ok h
    exact iff_of_true (fun mark hmark => (Dict.mem_keys_set _).mpr (Or.inr (hs mark hmark))) trivial
  case exchange ctx r =>
    rcases exchangeHolding_ok h with ⟨hnone, rfl⟩ | ⟨held, booking, hget, hne, hbooking, happly⟩
    · refine iff_of_true hs ?_
      intro held hget hne _
      exact absurd (Option.filter_eq_none_iff.mp hnone held hget) (by simpa using hne)
    · rw [applyExchange_marksHeld happly hs, exchangeBooking_closes hbooking]
      have hasset : booking.assetId = r.exchange.assetId := by
        obtain ⟨_, _, _, -, -, -, rfl⟩ := exchangeBooking_ok hbooking
        rfl
      rw [hasset]
      constructor
      · intro h held' hget' _
        rw [hget, Option.mem_def, Option.some.injEq] at hget'
        exact hget' ▸ h
      · intro h
        exact h held hget hne
  case amendPayment =>
    refine iff_of_true ?_ trivial
    rcases amendPayment_ok h with rfl | ⟨-, _, -, rfl⟩ <;> exact hs
  case amendDelivery =>
    obtain ⟨_, h⟩ := h
    exact amendDelivery_marksHeld h hs

/-- **Every reachable book can be read back**, where no exchange or failed
    delivery closes a position that still waits for a mark. -/
theorem runs_read_back {account : Account}
    (h : Runs PortfolioCall.apply KeepsMarks (.opened account) s) :
    (∀ mark ∈ s.pendingMarks, mark ∈ s.positions.keys) ∧
      s.pendingMarks.members.Pairwise (· < ·) ∧
      ∃ p, fromPrimitives (capture s).toJson = .ok p ∧ p.Same (capture s) := by
  have hheld : MarksHeld s := by
    refine h.invariant (fun t => MarksHeld t) (by simp [MarksHeld, PortfolioState.opened]) ?_
    intro t c u ht hc hu
    exact (apply_marksHeld hu ht).mpr hc
  refine ⟨hheld, s.pendingMarks.sorted, (capture s).sorted, ?_, (capture s).sorted_same⟩
  have hkeys := assetIds_eq_keys (runs_wellBooked h)
  rw [fromPrimitives_toJson, hkeys]
  exact if_pos hheld

theorem runs_read_back_marked : ∃ s s',
    bookOf [.deposit 1000 "USD" 1, trade "OLD" 10 10 2,
      .updateMarketPrices (Dict.ofList [("OLD", 11)]) 3] = .ok s ∧
    PortfolioCall.apply s (.exchange dollarRun { exchange := boughtOut, timestamp := 4 }) = .ok s' ∧
    ∃ p, fromPrimitives (capture s').toJson = .ok p ∧ p.Same (capture s') := by
  obtain ⟨⟨s, s'⟩, h, hmarks⟩ := exists_ok_of
    (x := do
      let s ← bookOf [.deposit 1000 "USD" 1, trade "OLD" 10 10 2,
        .updateMarketPrices (Dict.ofList [("OLD", 11)]) 3]
      let s' ← PortfolioCall.apply s
        (.exchange dollarRun { exchange := boughtOut, timestamp := 4 })
      pure (s, s'))
    (fun p => p.1.pendingMarks = SortedSet.empty) (by decide +kernel)
  simp only [bind_ok, pure_ok, Prod.mk.injEq] at h
  obtain ⟨_, hbook, _, hexchange, rfl, rfl⟩ := h
  have hstart : Runs PortfolioCall.apply KeepsMarks (.opened dollarAccount) _ :=
    Runs.of_foldlM hbook (by simp [KeepsMarks, trade])
  refine ⟨_, _, hbook, hexchange, (runs_read_back (hstart.step ?_ hexchange)).2.2⟩
  intro _ _ _ _
  simp only at hmarks
  simp [hmarks]

/-- **A position bought out before its mark leaves a book that cannot be read
    back**: it still waits for the mark, and is not held. -/
theorem bought_out_unread : ∃ s,
    bookOf [.deposit 1000 "USD" 1, trade "OLD" 10 10 2,
      .exchange dollarRun { exchange := boughtOut, timestamp := 3 }] = .ok s ∧
    ¬ (∀ mark ∈ s.pendingMarks, mark ∈ s.positions.keys) ∧
    fromPrimitives (capture s).toJson = .error (.pendingMarks ["OLD"] []) := by
  obtain ⟨s, hs, hmarks, hpositions⟩ := exists_ok_of
    (x := bookOf [.deposit 1000 "USD" 1, trade "OLD" 10 10 2,
      .exchange dollarRun { exchange := boughtOut, timestamp := 3 }])
    (fun s => s.pendingMarks.members = ["OLD"] ∧ s.positions.entries = []) (by decide +kernel)
  have hnot : ¬ ∀ mark ∈ s.pendingMarks.members, mark ∈ s.positions.values.map (·.assetId) := by
    simp [hmarks, Dict.values, hpositions]
  refine ⟨s, hs, ?_, ?_⟩
  · intro h
    have hkey := h "OLD" (by simp [SortedSet.mem_def, hmarks])
    simp [Dict.keys, hpositions] at hkey
  · rw [fromPrimitives_toJson, if_neg hnot, hmarks, Dict.values, hpositions]
    rfl

end AlphaLab
