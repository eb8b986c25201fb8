/-
  What the calls of a simulated run leave of the order book.

  * `Order.Moves`: an order moved is on its own terms, with its own limit, and is not
    reopened; `OrderBook.Follows`: the orders of a book moved, and then new ones;
  * `PipelineState.Untraded`: every order moved, and nothing executed.
-/
import AlphaLab.Runtime.Reservations
import AlphaLab.Simulation.Auction

namespace AlphaLab

open Fallible

/-! ## Orders moved -/

theorem Order.SameTerms.refl (o : Order) : o.SameTerms o := ⟨rfl, rfl, rfl, rfl, rfl, rfl, rfl⟩

theorem Order.SameTerms.trans {o o' o'' : Order} (h : o.SameTerms o') (h' : o'.SameTerms o'') :
    o.SameTerms o'' :=
  ⟨h'.1.trans h.1, h'.2.trans h.2, h'.3.trans h.3, h'.4.trans h.4, h'.5.trans h.5,
    h'.6.trans h.6, h'.7.trans h.7⟩

def Order.limitTerms (o : Order) : Side × OrderType × Option Decimal × TimeInForce :=
  (o.side, o.orderType, o.limitPrice, o.timeInForce)

structure Order.Moves (o o' : Order) : Prop where
  terms : o.SameTerms o'
  limit : o'.limitPrice = o.limitPrice
  stays : o'.isOpen = true → o.isOpen = true

namespace Order.Moves

variable {o o' o'' : Order}

theorem refl (o : Order) : o.Moves o := ⟨.refl o, rfl, id⟩

theorem trans (h : o.Moves o') (h' : o'.Moves o'') : o.Moves o'' :=
  ⟨h.terms.trans h'.terms, h'.limit.trans h.limit, h.stays ∘ h'.stays⟩

theorem limitTerms (h : o.Moves o') : o'.limitTerms = o.limitTerms := by
  simp only [Order.limitTerms, h.terms.side, h.terms.orderType, h.limit, h.terms.timeInForce]

theorem of_open (hopen : o.isOpen = true) (hterms : o.SameTerms o')
    (hlimit : o'.limitPrice = o.limitPrice) : o.Moves o' :=
  ⟨hterms, hlimit, fun _ => hopen⟩

end Order.Moves

/-- `book'` lists the orders of `book`, each moved, and after them those of `new`. -/
structure OrderBook.Follows (new : List String) (book book' : OrderBook) : Prop where
  ids : book'.values.map (·.orderId) = book.values.map (·.orderId) ++ new
  orders : ∀ k o, book.get? k = some o → ∃ o', book'.get? k = some o' ∧ o.Moves o'

namespace OrderBook.Follows

variable {new new' : List String} {book book' book'' : OrderBook}

theorem refl (book : OrderBook) : Follows [] book book :=
  ⟨(List.append_nil _).symm, fun _ o ho => ⟨o, ho, .refl o⟩⟩

theorem trans (h : Follows new book book') (h' : Follows new' book' book'') :
    Follows (new ++ new') book book'' := by
  refine ⟨by rw [h'.ids, h.ids, List.append_assoc], ?_⟩
  intro k o ho
  obtain ⟨o', ho', hmoves⟩ := h.orders k o ho
  obtain ⟨o'', ho'', hmoves'⟩ := h'.orders k o' ho'
  exact ⟨o'', ho'', hmoves.trans hmoves'⟩

theorem put {k : String} {o o' : Order} (ho : book.get? k = some o) (h : o.Moves o') :
    Follows [] book (book.put o') := by
  have hkey : o'.orderId = k := h.terms.orderId.trans (Register.key_of_get? ho)
  constructor
  · rw [Register.values_put_old (hkey ▸ ho), List.map_map, List.append_nil]
    refine List.map_congr_left fun w _ => ?_
    simp only [Function.comp_apply]
    split_ifs with hw
    · exact hw.symm
    · rfl
  · intro k₁ o₁ ho₁
    rw [Register.get?_put]
    split_ifs with hk
    · obtain rfl := Option.some.inj (ho.symm.trans ((hk.trans hkey) ▸ ho₁))
      exact ⟨o', rfl, h⟩
    · exact ⟨o₁, ho₁, .refl o₁⟩

theorem add {o : Order} (hnew : book.get? o.orderId = none) :
    Follows [o.orderId] book (book.put o) := by
  constructor
  · rw [Register.values_put_new hnew, List.map_append]
    rfl
  · intro k o₁ ho₁
    refine ⟨o₁, ?_, .refl o₁⟩
    rw [Register.get?_put_of_ne _ (by rintro rfl; rw [hnew] at ho₁; cases ho₁)]
    exact ho₁

theorem mem_of_get? {k : String} {o' : Order} (h : Follows new book book')
    (ho' : book'.get? k = some o') : (∃ o, book.get? k = some o ∧ o.Moves o') ∨ k ∈ new := by
  have hmem : k ∈ book.values.map (·.orderId) ++ new := by
    rw [← h.ids, ← Register.key_of_get? ho']
    exact List.mem_map_of_mem (Register.mem_values.mpr (Register.key_of_get? ho' ▸ ho'))
  rcases List.mem_append.mp hmem with hmem | hmem
  · obtain ⟨o, ho, rfl⟩ := List.mem_map.mp hmem
    obtain ⟨o₁, ho₁, hmoves⟩ := h.orders _ o (Register.mem_values.mp ho)
    obtain rfl := Option.some.inj (ho₁.symm.trans ho')
    exact Or.inl ⟨o, Register.mem_values.mp ho, hmoves⟩
  · exact Or.inr hmem

end OrderBook.Follows

/-! ## Calls that trade nothing -/

/-- Every order of `s` is one of `t`, moved, and nothing traded between them. -/
structure PipelineState.Untraded (s t : PipelineState) : Prop where
  orders : OrderBook.Follows [] s.orders t.orders
  executions : t.executions = s.executions

variable {c : PipelineConfig}

namespace PipelineState.Untraded

variable {s t u : PipelineState} {orderId : String} {timestamp : Instant}

theorem of_orders (horders : t.orders = s.orders) (hexecutions : t.executions = s.executions) :
    Untraded s t :=
  ⟨horders ▸ .refl _, hexecutions⟩

theorem refl (s : PipelineState) : Untraded s s := of_orders rfl rfl

theorem trans (h : Untraded s t) (h' : Untraded t u) : Untraded s u :=
  ⟨h.orders.trans h'.orders, h'.executions.trans h.executions⟩

theorem put {o o' : Order} (ho : s.orders.get? orderId = some o) (h : o.Moves o')
    (horders : t.orders = s.orders.put o') (hexecutions : t.executions = s.executions) :
    Untraded s t :=
  ⟨horders ▸ .put ho h, hexecutions⟩

theorem ended {ending : OrderEnding} (h : s.ended orderId ending timestamp = .ok t) :
    Untraded s t := by
  obtain ⟨o, ho, hopen, rfl⟩ := PipelineState.ended_ok h
  have hmoves : o.Moves { o with status := ending.status, updatedAt := timestamp } :=
    .of_open hopen ⟨rfl, rfl, rfl, rfl, rfl, rfl, rfl⟩ rfl
  exact put ho hmoves rfl rfl

theorem withdrawn (h : s.withdrawPartialRemainder orderId timestamp = .ok t) : Untraded s t := by
  simp only [PipelineState.withdrawPartialRemainder, bind_ok] at h
  obtain ⟨order, -, h⟩ := h
  split_ifs at h
  · exact ended h
  · obtain rfl := pure_ok.mp h
    exact refl s

theorem triggered {orders : OrderBook} (h : s.orders.trigger orderId timestamp = .ok orders) :
    Untraded s { s with orders := orders } := by
  simp only [OrderBook.trigger, OrderBook.find, bind_ok, orRefuse_ok, pure_ok] at h
  obtain ⟨o, ho, rfl⟩ := h
  split_ifs
  · exact refl s
  · have hmoves : o.Moves { o with triggeredAt := some timestamp } :=
      ⟨⟨rfl, rfl, rfl, rfl, rfl, rfl, rfl⟩, rfl, id⟩
    exact put ho hmoves rfl rfl

theorem applied {rates : FxRates} {order : Order} {report : ExecutionReport}
    (h : s.applyReport c rates order report = .ok t) : Untraded s t := by
  obtain ⟨filled, booked, notional, recorded, hfilled, hbooked, -, -, rfl⟩ :=
    PipelineState.applyReport_ok.mp h
  obtain ⟨-, f, portfolio, -, -, -, rfl⟩ := PipelineState.reportToPortfolio_ok hbooked
  have hmoved : Untraded s filled := by
    rcases PipelineState.reportToOms_ok hfilled with ⟨rfl, -⟩ | ⟨o, o', ho, hmove, rfl⟩
    · exact refl _
    · rcases hmove with ⟨-, hmove⟩ | ⟨-, hmove⟩
      · obtain ⟨status, hnext, -, -, rfl⟩ := AlphaLab.fill_ok.mp hmove
        exact put ho (.of_open (isOpen_of_next hnext) (filledBy_sameTerms _ _ _ _) rfl) rfl rfl
      · obtain ⟨status, hnext, -, -, rfl⟩ := AlphaLab.partialFill_ok.mp hmove
        exact put ho (.of_open (isOpen_of_next hnext) (filledBy_sameTerms _ _ _ _) rfl) rfl rfl
  refine hmoved.trans (of_orders ?_ ?_)
  · exact PipelineState.releaseIfTerminal_orders ..
  · exact PipelineState.releaseIfTerminal_executions ..

theorem cancelWorking {assetId : String} (h : s.cancelWorking c assetId timestamp = .ok t) :
    Untraded s t := by
  simp only [PipelineState.cancelWorking, bind_ok, require_ok, exists_const] at h
  refine foldlM_invariant (Untraded s) h.2 (refl s) ?_
  intro orderId _ u v hended hkept
  exact hkept.trans (ended hended)

theorem reduced {remaining : Decimal} (h : s.reduceInPlace orderId remaining timestamp = .ok t) :
    Untraded s t := by
  obtain ⟨o, o', -, total, -, ho, hreplace, -, -, contributions, rfl⟩ := reduceInPlace_ok h
  have hmoves : o.Moves o' := by
    obtain ⟨status, hnext, -, rfl⟩ := replace_ok.mp hreplace
    exact .of_open (isOpen_of_next hnext) ⟨rfl, rfl, rfl, rfl, rfl, rfl, rfl⟩ rfl
  exact put ho hmoves rfl rfl

theorem split {split : Split} (h : s.applySplit c split timestamp = .ok t) : Untraded s t := by
  simp only [PipelineState.applySplit, bind_ok] at h
  obtain ⟨current, hcurrent, h⟩ := h
  have hcancelled := cancelWorking hcurrent
  split_ifs at h <;> simp only [bind_ok, pure_ok] at h <;> obtain ⟨portfolio, -, rfl⟩ := h
  · exact hcancelled.trans (of_orders rfl rfl)
  · exact hcancelled.trans (of_orders rfl rfl)

theorem exchange {ctx : ExchangeContext} {request : ExchangeRequest}
    (h : s.applyExchange c ctx request = .ok t) : Untraded s t := by
  simp only [PipelineState.applyExchange, bind_ok] at h
  obtain ⟨current, hcurrent, h⟩ := h
  have hcancelled := cancelWorking hcurrent
  split at h
  · obtain rfl := pure_ok.mp h
    exact hcancelled
  · simp only [bind_ok, mapError_ok, pure_ok] at h
    obtain ⟨taken, -, plan, -, parts, -, portfolio, -, allocation, -, rfl⟩ := h
    exact hcancelled.trans (of_orders rfl rfl)

end PipelineState.Untraded

theorem submitAndAccept_follows {s t : PipelineState} {request : OrderRequest}
    {expireAt : Option Instant} {timestamp : Instant}
    (h : s.submitAndAccept request expireAt timestamp = .ok t) :
    OrderBook.Follows [request.orderId] s.orders t.orders := by
  obtain ⟨hnew, o, -, rfl, rfl⟩ := PipelineState.submitAndAccept_ok h
  have hsubmitted : OrderBook.Follows [request.orderId] s.orders
      (s.orders.put (request.toOrder expireAt)) := .add (o := request.toOrder expireAt) hnew
  refine hsubmitted.trans (.put (Register.get?_put_self s.orders (request.toOrder expireAt)) ?_)
  exact .of_open rfl ⟨rfl, rfl, rfl, rfl, rfl, rfl, rfl⟩ rfl

/-- **A call that leaves trading to the events** moves orders, and executes nothing. -/
theorem pipelineStep_untraded {s s' : RoutingState} {call : PipelineCall}
    (hcall : call.tradesNothing = true) (h : pipelineStep c s call = .ok s') :
    PipelineState.Untraded s.pipeline s'.pipeline := by
  cases pipelineStep_cases h with
  | allocate | drop | replacementRefused | book => exact .of_orders rfl rfl
  | finish hended => exact .ended hended
  | outcome hended => exact .ended hended
  | reduce hreduced => exact .reduced hreduced
  | split hafter => exact .split hafter
  | exchange hafter => exact .exchange hafter
  | place | fill | repeated | venueReport | triggered | trigger => cases hcall

end AlphaLab
