/-
  The OMS over runs of its calls.

  * `OmsOrder.Balanced` is what an order's amounts agree on, `Moved` what a move of an
    order leaves;
  * `OmsState.Indexed` says that every index lists the book's orders in the order they
    were placed; `store_new_indexed` and `store_moved_indexed` are its step lemmas;
  * `book_consistent`: along every run of calls that meet `OmsCall.Meets`, the book is
    consistent, a closed order stays as it is, and the snapshot restores the state.
-/
import AlphaLab.Oms.Book

namespace AlphaLab

open Fallible

/-! ## One order -/

/-- **What an order's amounts agree on**. -/
structure OmsOrder.Balanced (o : OmsOrder) : Prop where
  total : o.filledQuantity + o.remaining = o.quantity
  nonneg : 0 ≤ o.filledQuantity
  most : o.filledQuantity ≤ o.quantity
  completes : o.status = .filled ↔ o.filledQuantity = o.quantity

structure OmsOrder.Moved (o o' : OmsOrder) : Prop where
  orderId : o'.orderId = o.orderId
  assetId : o'.assetId = o.assetId
  strategyId : o'.strategyId = o.strategyId
  isOpen : o.isOpen = true

namespace OmsOrder

variable {o o' : OmsOrder} {timestamp : Instant}

theorem next_ok {event : OrderEventKind} {status : OrderStatus} :
    o.next event = .ok status ↔ nextOrderStatus o.status event o.filledQuantity = some status := by
  rw [next, mapError_ok, AlphaLab.next_ok]

variable {event : StatusEventKind}

theorem moved_ok :
    o.moved event timestamp = .ok o' ↔
      ∃ status, nextOrderStatus o.status (.status event) o.filledQuantity = some status ∧
        o' = { o with status := status, updatedAt := timestamp } := by
  simp only [moved, bind_ok, mapError_ok, AlphaLab.moved_ok, pure_ok]
  constructor
  · rintro ⟨order, ⟨status, hnext, rfl⟩, rfl⟩
    exact ⟨status, hnext, rfl⟩
  · rintro ⟨status, hnext, rfl⟩
    exact ⟨_, ⟨status, hnext, rfl⟩, rfl⟩

variable {quantity price : Decimal}

theorem filledAfter_ok {out : Decimal × Decimal} :
    o.filledAfter quantity price = .ok out ↔
      0 < quantity ∧ add o.filledQuantity quantity ≠ 0 ∧
        out = (add o.filledQuantity quantity,
          divide (add (multiply o.filledQuantity o.averageFillPrice) (multiply quantity price))
            (add o.filledQuantity quantity)) := by
  simp only [filledAfter, bind_ok, require_ok, pure_ok, exists_const]
  exact and_congr_right fun _ => and_congr_right fun _ => eq_comm

theorem partialFill_ok (h : o.partialFill quantity price timestamp = .ok o') :
    ∃ status average, nextOrderStatus o.status .partiallyFilled o.filledQuantity = some status ∧
      0 < quantity ∧ add o.filledQuantity quantity < o.quantity ∧
      o' = o.filledBy status (add o.filledQuantity quantity) average timestamp := by
  simp only [partialFill, bind_ok, next_ok, filledAfter_ok, require_ok, pure_ok] at h
  obtain ⟨status, hnext, out, ⟨hquantity, -, rfl⟩, -, hless, rfl⟩ := h
  exact ⟨status, _, hnext, hquantity, hless, rfl⟩

theorem fill_ok (h : o.fill quantity price timestamp = .ok o') :
    ∃ status average, nextOrderStatus o.status .filled o.filledQuantity = some status ∧
      0 < quantity ∧ add o.filledQuantity quantity = o.quantity ∧
      o' = o.filledBy status (add o.filledQuantity quantity) average timestamp := by
  simp only [fill, bind_ok, next_ok, filledAfter_ok, require_ok, pure_ok] at h
  obtain ⟨status, hnext, out, ⟨hquantity, -, rfl⟩, -, hall, rfl⟩ := h
  exact ⟨status, _, hnext, hquantity, hall, rfl⟩

variable {limit : Option Decimal}

theorem replace_ok :
    o.replace quantity timestamp limit = .ok o' ↔
      ∃ status, nextOrderStatus o.status .replaced o.filledQuantity = some status ∧
        o.filledQuantity < quantity ∧ o' = { o with
          status := status
          quantity := quantity
          remaining := subtract quantity o.filledQuantity
          limitPrice := limit.orElse fun _ => o.limitPrice
          updatedAt := timestamp } := by
  simp only [replace, bind_ok, next_ok, require_ok, pure_ok, exists_const]
  exact exists_congr fun status => and_congr_right fun _ => and_congr_right fun _ => eq_comm

/-! ### Moves keep the balance -/

theorem Balanced.less_of_isOpen (hb : o.Balanced) (hopen : o.isOpen = true) :
    o.filledQuantity ≠ o.quantity := by
  intro heq
  have hstatus := hb.completes.mpr heq
  rw [Order.isOpen, hstatus] at hopen
  exact absurd hopen (by decide)

theorem moved_moved (h : o.moved event timestamp = .ok o') : o.Moved o' := by
  obtain ⟨status, hnext, rfl⟩ := moved_ok.mp h
  exact ⟨rfl, rfl, rfl, isOpen_of_next hnext⟩

theorem moved_balanced (hb : o.Balanced) (h : o.moved event timestamp = .ok o') : o'.Balanced := by
  obtain ⟨status, hnext, rfl⟩ := moved_ok.mp h
  refine ⟨hb.total, hb.nonneg, hb.most, ?_⟩
  have hless := hb.less_of_isOpen (isOpen_of_next hnext)
  have hstatus : status ≠ .filled := by
    rintro rfl
    exact nextOrderStatus_status_ne_filled hnext
  constructor
  · exact fun heq => absurd heq hstatus
  · exact fun heq => absurd heq hless

theorem partialFill_moved (h : o.partialFill quantity price timestamp = .ok o') : o.Moved o' := by
  obtain ⟨status, average, hnext, -, -, rfl⟩ := partialFill_ok h
  exact ⟨rfl, rfl, rfl, isOpen_of_next hnext⟩

theorem partialFill_balanced (hb : o.Balanced)
    (hexact : Exact (o.quantity - add o.filledQuantity quantity))
    (h : o.partialFill quantity price timestamp = .ok o') : o'.Balanced := by
  obtain ⟨status, average, hnext, hquantity, hless, rfl⟩ := partialFill_ok h
  have hsub : subtract o.quantity (add o.filledQuantity quantity) =
      o.quantity - add o.filledQuantity quantity := hexact
  have hnonneg : 0 ≤ add o.filledQuantity quantity :=
    inContext_nonneg (add_nonneg hb.nonneg hquantity.le)
  have hrow : ∀ s t, orderTransitions s .partiallyFilled = some t → t ≠ .filled := by decide
  have hstatus : status ≠ .filled := by
    rcases nextOrderStatus_eq_some hnext with ht | ⟨-, hevent, -⟩
    · exact hrow _ _ ht
    · cases hevent
  refine ⟨?_, hnonneg, hless.le, ?_⟩
  · simp only [filledBy, hsub]
    ring
  · constructor
    · exact fun heq => absurd heq hstatus
    · exact fun heq => absurd heq hless.ne

theorem fill_moved (h : o.fill quantity price timestamp = .ok o') : o.Moved o' := by
  obtain ⟨status, average, hnext, -, -, rfl⟩ := fill_ok h
  exact ⟨rfl, rfl, rfl, isOpen_of_next hnext⟩

theorem fill_balanced (hb : o.Balanced) (h : o.fill quantity price timestamp = .ok o') :
    o'.Balanced := by
  obtain ⟨status, average, hnext, -, hall, rfl⟩ := fill_ok h
  have hrow : ∀ s t, orderTransitions s .filled = some t → t = .filled := by decide
  have hstatus : status = .filled := by
    rcases nextOrderStatus_eq_some hnext with ht | ⟨-, hevent, -⟩
    · exact hrow _ _ ht
    · cases hevent
  have hnone : subtract o.quantity o.quantity = 0 := by simp [subtract]
  refine ⟨?_, ?_, hall.le, ?_⟩
  · simp only [filledBy, hall, hnone, add_zero]
  · simp only [filledBy, hall]
    exact hb.nonneg.trans hb.most
  · simp only [filledBy, hall, hstatus]

theorem replace_moved (h : o.replace quantity timestamp limit = .ok o') : o.Moved o' := by
  obtain ⟨status, hnext, -, rfl⟩ := replace_ok.mp h
  exact ⟨rfl, rfl, rfl, isOpen_of_next hnext⟩

theorem replace_balanced (hb : o.Balanced) (hexact : Exact (quantity - o.filledQuantity))
    (h : o.replace quantity timestamp limit = .ok o') : o'.Balanced := by
  obtain ⟨status, hnext, hless, rfl⟩ := replace_ok.mp h
  have hsub : subtract quantity o.filledQuantity = quantity - o.filledQuantity := hexact
  have hrow : ∀ s t, orderTransitions s .replaced = some t → t ≠ .filled := by decide
  have hstatus : status ≠ .filled := by
    rcases nextOrderStatus_eq_some hnext with ht | ⟨-, hevent, -⟩
    · exact hrow _ _ ht
    · cases hevent
  refine ⟨?_, hb.nonneg, hless.le, ?_⟩
  · simp only [hsub]
    ring
  · constructor
    · exact fun heq => absurd heq hstatus
    · exact fun heq => absurd heq hless.ne

end OmsOrder

section
variable {l : List OmsOrder} {o : OmsOrder} {p : OmsOrder → Bool}

/-- `l` with `o` in the place of the order it moves. -/
def replaceOrder (l : List OmsOrder) (o : OmsOrder) : List OmsOrder :=
  l.map fun w => if w.orderId = o.orderId then o else w

theorem filter_replaceOrder_same (h : ∀ w ∈ l, w.orderId = o.orderId → p w = p o) :
    ((replaceOrder l o).filter p).map (·.orderId) = (l.filter p).map (·.orderId) := by
  induction l with
  | nil => rfl
  | cons w l ih =>
    have hrest := ih fun v hv => h v (by simp [hv])
    rw [replaceOrder] at hrest
    by_cases hw : w.orderId = o.orderId
    · have hp := h w (by simp) hw
      by_cases ho : p o = true
      · simp [replaceOrder, hw, hp, ho, hrest]
      · simp [replaceOrder, hw, hp, ho, hrest]
    · by_cases hp : p w = true
      · simp [replaceOrder, hw, hp, hrest]
      · simp [replaceOrder, hw, hp, hrest]

theorem filter_replaceOrder_leave (h : p o = false) :
    ((replaceOrder l o).filter p).map (·.orderId) =
      ((l.filter p).map (·.orderId)).filter (· ≠ o.orderId) := by
  induction l with
  | nil => rfl
  | cons w l ih =>
    rw [replaceOrder] at ih
    by_cases hw : w.orderId = o.orderId
    · by_cases hp : p w = true
      · simp [replaceOrder, hw, hp, h, ih]
      · simp [replaceOrder, hw, hp, h, ih]
    · by_cases hp : p w = true
      · simp [replaceOrder, hw, hp, ih]
      · simp [replaceOrder, hw, hp, ih]

theorem map_replaceOrder {α : Type} {f : OmsOrder → α}
    (h : ∀ w ∈ l, w.orderId = o.orderId → f w = f o) : (replaceOrder l o).map f = l.map f := by
  rw [replaceOrder, List.map_map]
  refine List.map_congr_left fun w hw => ?_
  by_cases hkey : w.orderId = o.orderId
  · simp [hkey, h w hw hkey]
  · simp [hkey]

end

/-! ## The indexes -/

variable {orderId : String}

namespace OmsState

variable {s t : OmsState} {o o₀ : OmsOrder}

def placed (s : OmsState) : List OmsOrder := s.orders.orders.values

/-- **Every index lists the book's orders**: the active ones, the completed ones, those of
    each asset and strategy, and those working in each asset, as they were placed. -/
structure Indexed (s : OmsState) : Prop where
  active : s.activeOrders.members = (s.placed.filter (·.isOpen)).map (·.orderId)
  completed : ∀ orderId, orderId ∈ s.completedOrders.members ↔
    ∃ o, s.orders.orders.get? orderId = some o ∧ o.isOpen = false
  working : ∀ assetId, s.workingOrdersFor assetId =
    (s.placed.filter fun o => o.isOpen && o.assetId = assetId).map (·.orderId)
  byAsset : s.orders.byAsset = Dict.grouped (s.placed.map fun o => (o.assetId, o.orderId))
  byStrategy : s.orders.byStrategy = Dict.grouped
    ((s.placed.filter (·.strategyId ≠ "")).map fun o => (o.strategyId, o.orderId))

theorem empty_indexed : empty.Indexed :=
  ⟨rfl, by simp [empty, OmsBook.empty, OrderedSet.empty], fun _ => rfl, rfl, rfl⟩

/-- **What the working index holds** once an order is entered or taken out. -/
theorem membersAt_indexed (s : OmsState) (o : OmsOrder) (assetId : String) :
    (s.indexed o).membersAt assetId =
      if assetId = o.assetId then
        if o.isOpen then
          if o.orderId ∈ s.workingOrdersFor o.assetId then s.workingOrdersFor o.assetId
          else s.workingOrdersFor o.assetId ++ [o.orderId]
        else (s.workingOrdersFor o.assetId).filter (· ≠ o.orderId)
      else s.workingOrdersFor assetId := by
  simp only [indexed, workingOrdersFor]
  cases hheld : s.workingByAsset.get? o.assetId with
  | none =>
    have hat : s.workingByAsset.membersAt o.assetId = [] := by simp [Dict.membersAt, hheld]
    by_cases hopen : o.isOpen = true
    · simp [hopen, OrderedSet.singleton, Dict.membersAt_set, hat]
    · by_cases hasset : assetId = o.assetId
      · simp [hopen, hasset, hat]
      · simp [hopen, hasset]
  | some held =>
    have hat : s.workingByAsset.membersAt o.assetId = held.members := by
      simp [Dict.membersAt, hheld]
    by_cases hopen : o.isOpen = true
    · by_cases hmem : o.orderId ∈ held.members
      · have hsame : held.add o.orderId = held := by simp [OrderedSet.add, hmem]
        by_cases hasset : assetId = o.assetId
        · simp [hopen, hsame, hasset, hat, hmem]
        · simp [hopen, hsame, hasset]
      · have hadd : (held.add o.orderId).members = held.members ++ [o.orderId] := by
          simp [OrderedSet.members_add, hmem]
        have hne : held.add o.orderId ≠ held := by
          intro heq
          rw [heq] at hadd
          simp at hadd
        simp [hopen, hne, hadd, Dict.membersAt_set, hat, hmem]
    · have hclosed : o.isOpen = false := by simpa using hopen
      simp only [hclosed, Option.map_some, Option.some.injEq, Bool.false_eq_true, if_false, hat]
      by_cases hsame : held.discard o.orderId = held
      · have hfilter : held.members.filter (· ≠ o.orderId) = held.members :=
          congrArg OrderedSet.members hsame
        rw [if_pos hsame, hfilter]
        split_ifs with hasset
        · rw [hasset, hat]
        · rfl
      · rw [if_neg hsame]
        split_ifs with hnil hasset hasset
        · rw [OrderedSet.members_discard] at hnil
          rw [Dict.membersAt_delete, if_pos hasset, hnil]
        · rw [Dict.membersAt_delete, if_neg hasset]
        · rw [Dict.membersAt_set, if_pos hasset, OrderedSet.members_discard]
        · rw [Dict.membersAt_set, if_neg hasset]

theorem placed_of_get? (h : s.orders.orders.get? orderId = some o) :
    o ∈ s.placed ∧ o.orderId = orderId := by
  obtain rfl := Register.key_of_get? h
  exact ⟨Register.mem_values.mpr h, rfl⟩

theorem eq_of_placed {w : OmsOrder} (hw : w ∈ s.placed) (hkey : w.orderId = o₀.orderId)
    (hold : s.orders.orders.get? o₀.orderId = some o₀) : w = o₀ := by
  have hget : s.orders.orders.get? w.orderId = some w := Register.mem_values.mp hw
  rw [hkey, hold] at hget
  exact (Option.some.inj hget).symm

theorem store_orders (s : OmsState) (o : OmsOrder) (event : Option OmsEvent) :
    (s.store o event).orders.orders = s.orders.orders.put o := by
  unfold store
  split_ifs <;> rfl

theorem get?_store (s : OmsState) (o : OmsOrder) (event : Option OmsEvent) (orderId : String) :
    (s.store o event).orders.orders.get? orderId =
      if orderId = o.orderId then some o else s.orders.orders.get? orderId := by
  rw [store_orders]
  exact Register.get?_put _ _ _

theorem store_completed {event : Option OmsEvent} (hs : s.Indexed) (orderId : String) :
    orderId ∈ (s.store o event).completedOrders.members ↔
      ∃ w, (s.store o event).orders.orders.get? orderId = some w ∧ w.isOpen = false := by
  rw [get?_store]
  by_cases hopen : o.isOpen = true
  · have hstored : (s.store o event).completedOrders = s.completedOrders.discard o.orderId := by
      simp [store, hopen]
    rw [hstored, OrderedSet.mem_discard, hs.completed]
    by_cases hid : orderId = o.orderId
    · simp [hid, hopen]
    · simp [hid]
  · have hstored : (s.store o event).completedOrders = s.completedOrders.add o.orderId := by
      simp [store, hopen]
    rw [hstored, OrderedSet.mem_add, hs.completed]
    by_cases hid : orderId = o.orderId
    · simp [hid, hopen]
    · simp [hid]

/-- **A new order stored** joins every index it belongs to, last. -/
theorem store_new_indexed (event : Option OmsEvent) (hs : s.Indexed)
    (hnew : s.orders.orders.get? o.orderId = none) : (s.store o event).Indexed := by
  have hput : (s.orders.orders.put o).values = s.placed ++ [o] := Register.values_put_new hnew
  have hbook : (s.store o event).orders = s.orders.add o := by simp [store, hnew]
  have hplaced : (s.store o event).placed = s.placed ++ [o] := by
    rw [placed, hbook]
    exact hput
  have hunplaced : ∀ w ∈ s.placed, w.orderId ≠ o.orderId := by
    intro w hw heq
    have hget : s.orders.orders.get? w.orderId = some w := Register.mem_values.mp hw
    rw [heq, hnew] at hget
    cases hget
  have hinactive : o.orderId ∉ s.activeOrders.members := by
    rw [hs.active, List.mem_map]
    rintro ⟨w, hw, heq⟩
    exact hunplaced w (List.mem_of_mem_filter hw) heq
  have hidle : ∀ assetId, o.orderId ∉ s.workingOrdersFor assetId := by
    intro assetId
    rw [hs.working, List.mem_map]
    rintro ⟨w, hw, heq⟩
    exact hunplaced w (List.mem_of_mem_filter hw) heq
  refine ⟨?_, ?_, ?_, ?_, ?_⟩
  · rw [hplaced, List.filter_append, List.map_append, ← hs.active]
    by_cases hopen : o.isOpen = true
    · simp [store, hopen, OrderedSet.members_add, hinactive]
    · have hsame : s.activeOrders.members.filter (· ≠ o.orderId) = s.activeOrders.members :=
        List.filter_eq_self.mpr fun id hid => by
          simp only [ne_eq, decide_eq_true_eq]
          rintro rfl
          exact hinactive hid
      simpa [store, hopen] using hsame
  · intro orderId
    exact store_completed hs orderId
  · intro assetId
    have hread : (s.store o event).workingOrdersFor assetId =
        (s.indexed o).membersAt assetId := rfl
    rw [hread, membersAt_indexed, hplaced, List.filter_append, List.map_append, ← hs.working]
    by_cases hasset : assetId = o.assetId
    · subst hasset
      by_cases hopen : o.isOpen = true
      · simp [hopen, hidle]
      · have hsame : (s.workingOrdersFor o.assetId).filter (· ≠ o.orderId) =
            s.workingOrdersFor o.assetId :=
          List.filter_eq_self.mpr fun id hid => by
            simp only [ne_eq, decide_eq_true_eq]
            rintro rfl
            exact hidle _ hid
        rw [if_pos rfl, if_neg hopen, hsame]
        simp [hopen]
    · simp [hasset, Ne.symm hasset]
  · rw [hplaced, List.map_append, hbook]
    change s.orders.byAsset.enter o.assetId o.orderId = _
    rw [hs.byAsset]
    exact (Dict.grouped_append_singleton _ (o.assetId, o.orderId)).symm
  · rw [hplaced, List.filter_append, List.map_append, hbook]
    change (if o.strategyId = "" then s.orders.byStrategy
      else s.orders.byStrategy.enter o.strategyId o.orderId) = _
    rw [hs.byStrategy]
    by_cases hstrategy : o.strategyId = ""
    · simp [hstrategy]
    · rw [if_neg hstrategy]
      simp only [hstrategy, ne_eq, not_false_eq_true, decide_true, List.filter_cons_of_pos,
        List.filter_nil, List.map_cons, List.map_nil]
      exact (Dict.grouped_append_singleton _ (o.strategyId, o.orderId)).symm

/-- **An order moved** stays where it is in every index, or leaves those of open orders. -/
theorem store_moved_indexed {event : Option OmsEvent} (hs : s.Indexed)
    (hold : s.orders.orders.get? o₀.orderId = some o₀) (hmoved : o₀.Moved o) :
    (s.store o event).Indexed := by
  have hget : s.orders.orders.get? o.orderId = some o₀ := by rw [hmoved.orderId, hold]
  have hbook : (s.store o event).orders = s.orders.replace o := by simp [store, hget]
  have hplaced : (s.store o event).placed = replaceOrder s.placed o := by
    rw [placed, hbook]
    exact Register.values_put_old hget
  have heq : ∀ w ∈ s.placed, w.orderId = o.orderId → w = o₀ := by
    intro w hw hkey
    exact eq_of_placed hw (hkey.trans hmoved.orderId) hold
  have hactive : o.orderId ∈ s.activeOrders.members := by
    rw [hs.active, List.mem_map]
    refine ⟨o₀, List.mem_filter.mpr ⟨(placed_of_get? hold).1, hmoved.isOpen⟩, hmoved.orderId.symm⟩
  refine ⟨?_, ?_, ?_, ?_, ?_⟩
  · rw [hplaced]
    by_cases hopen : o.isOpen = true
    · rw [filter_replaceOrder_same fun w hw hkey => by rw [heq w hw hkey, hmoved.isOpen, hopen],
        ← hs.active]
      simp [store, hopen, OrderedSet.members_add, hactive]
    · rw [filter_replaceOrder_leave (by simpa using hopen), ← hs.active]
      simp [store, hopen]
  · intro orderId
    exact store_completed hs orderId
  · intro assetId
    have hread : (s.store o event).workingOrdersFor assetId =
        (s.indexed o).membersAt assetId := rfl
    rw [hread, membersAt_indexed, hplaced]
    by_cases hasset : assetId = o.assetId
    · subst hasset
      have hworking : o.orderId ∈ s.workingOrdersFor o.assetId := by
        rw [hs.working, List.mem_map]
        refine ⟨o₀, List.mem_filter.mpr ⟨(placed_of_get? hold).1, ?_⟩, hmoved.orderId.symm⟩
        simp [hmoved.isOpen, hmoved.assetId]
      by_cases hopen : o.isOpen = true
      · rw [if_pos rfl, if_pos hopen, if_pos hworking, filter_replaceOrder_same, ← hs.working]
        intro w hw hkey
        rw [heq w hw hkey, hmoved.isOpen, hopen, hmoved.assetId]
      · rw [if_pos rfl, if_neg hopen, filter_replaceOrder_leave (by simp [hopen]), ← hs.working]
    · rw [if_neg hasset, hs.working, filter_replaceOrder_same]
      intro w hw hkey
      rw [heq w hw hkey, ← hmoved.assetId]
      simp [Ne.symm hasset]
  · rw [hplaced, map_replaceOrder, hbook]
    · exact hs.byAsset
    · intro w hw hkey
      rw [heq w hw hkey, hmoved.assetId, hmoved.orderId]
  · rw [hplaced, hbook]
    have hstrategies : ((replaceOrder s.placed o).filter (·.strategyId ≠ "")).map
        (fun w => (w.strategyId, w.orderId)) =
        (s.placed.filter (·.strategyId ≠ "")).map fun w => (w.strategyId, w.orderId) := by
      have hpairs := map_replaceOrder (l := s.placed) (o := o)
        (f := fun w => (w.strategyId, w.orderId)) fun w hw hkey => by
          rw [heq w hw hkey, hmoved.strategyId, hmoved.orderId]
      have hfilter : ∀ l : List OmsOrder, (l.filter (·.strategyId ≠ "")).map
          (fun w => (w.strategyId, w.orderId)) =
          (l.map fun w => (w.strategyId, w.orderId)).filter (·.1 ≠ "") := by
        intro l
        rw [List.filter_map]
        rfl
      rw [hfilter, hfilter, hpairs]
    rw [hstrategies]
    exact hs.byStrategy

/-! ## One call -/

theorem find_ok {book : OmsBook} :
    book.find orderId = .ok o ↔ book.orders.get? orderId = some o :=
  orRefuse_ok

theorem move_ok {move : OmsOrder → Except OmsError OmsOrder} {event : OmsEvent} :
    s.move orderId move event = .ok t ↔
      ∃ o o', s.orders.orders.get? orderId = some o ∧ move o = .ok o' ∧
        t = s.store o' (some event) := by
  simp only [OmsState.move, bind_ok, find_ok, pure_ok]
  constructor
  · rintro ⟨o, ho, o', ho', rfl⟩
    exact ⟨o, o', ho, ho', rfl⟩
  · rintro ⟨o, o', ho, ho', rfl⟩
    exact ⟨o, ho, o', ho', rfl⟩

end OmsState

/-- **When a call keeps the book**: an order is submitted with amounts that agree, a
    remainder fits the accounting context, and a stop is triggered of an order that works. -/
def OmsCall.Meets (s : OmsState) : OmsCall → Prop
  | .submit order _ _ => order.Balanced
  | .partialFill orderId quantity _ _ _ => ∀ o, s.orders.orders.get? orderId = some o →
    Exact (o.quantity - add o.filledQuantity quantity)
  | .replace orderId quantity _ _ _ => ∀ o, s.orders.orders.get? orderId = some o →
    Exact (quantity - o.filledQuantity)
  | .trigger orderId _ => ∀ o, s.orders.orders.get? orderId = some o →
    o.isOpen = true ∨ o.triggeredAt.isSome = true
  | _ => True

namespace OmsState

variable {s t u : OmsState} {o o₀ : OmsOrder}

/-- What one call does to the book's orders: one is put there, new and with amounts that
    agree, or in the place of the open order it moves. -/
structure Puts (s t : OmsState) (o : OmsOrder) : Prop where
  orders : t.orders.orders = s.orders.orders.put o
  indexed : s.Indexed → t.Indexed
  comes : (s.orders.orders.get? o.orderId = none ∧ o.Balanced) ∨
    ∃ o₀, s.orders.orders.get? o.orderId = some o₀ ∧ o₀.Moved o ∧ (o₀.Balanced → o.Balanced)

theorem store_puts {event : Option OmsEvent} (ho : s.orders.orders.get? orderId = some o₀)
    (hmoved : o₀.Moved o) (hbalanced : o₀.Balanced → o.Balanced) : s.Puts (s.store o event) o := by
  obtain rfl := (placed_of_get? ho).2
  refine ⟨store_orders s o event, fun hs => store_moved_indexed hs ho hmoved, ?_⟩
  exact Or.inr ⟨o₀, by rw [hmoved.orderId, ho], hmoved, hbalanced⟩

theorem move_puts {move : OmsOrder → Except OmsError OmsOrder} {event : OmsEvent}
    (h : s.move orderId move event = .ok t)
    (hmoved : ∀ o o', s.orders.orders.get? orderId = some o → move o = .ok o' → o.Moved o')
    (hbalanced : ∀ o o', s.orders.orders.get? orderId = some o → move o = .ok o' → o.Balanced →
      o'.Balanced) : ∃ o, s.Puts t o := by
  obtain ⟨o, o', ho, ho', rfl⟩ := move_ok.mp h
  exact ⟨o', store_puts ho (hmoved o o' ho ho') (hbalanced o o' ho ho')⟩

theorem submit_puts {timestamp : Instant} {eventId : String} (hbalanced : o.Balanced)
    (h : s.submit o timestamp eventId = .ok t) : s.Puts t o := by
  simp only [submit, bind_ok, require_ok, pure_ok] at h
  obtain ⟨-, hnew, -, -, rfl⟩ := h
  refine ⟨store_orders s o none, fun hs => ?_, Or.inl ⟨hnew, hbalanced⟩⟩
  obtain ⟨hactive, hcompleted, hworking, hasset, hstrategy⟩ :=
    store_new_indexed none hs hnew
  exact ⟨hactive, hcompleted, hworking, hasset, hstrategy⟩

variable {call : OmsCall}

/-- **What one call does**: it leaves the state, or puts one order. -/
theorem step_cases (hmeets : call.Meets s) (h : s.step call = .ok t) : t = s ∨ ∃ o, s.Puts t o := by
  cases call with
  | submit order timestamp eventId => exact Or.inr ⟨order, submit_puts hmeets h⟩
  | accept orderId timestamp eventId =>
    exact Or.inr (move_puts h (fun _ _ _ => OmsOrder.moved_moved)
      fun _ _ _ hmove hb => OmsOrder.moved_balanced hb hmove)
  | reject orderId reason timestamp eventId =>
    exact Or.inr (move_puts h (fun _ _ _ => OmsOrder.moved_moved)
      fun _ _ _ hmove hb => OmsOrder.moved_balanced hb hmove)
  | cancel orderId timestamp eventId =>
    exact Or.inr (move_puts h (fun _ _ _ => OmsOrder.moved_moved)
      fun _ _ _ hmove hb => OmsOrder.moved_balanced hb hmove)
  | expire orderId timestamp eventId =>
    exact Or.inr (move_puts h (fun _ _ _ => OmsOrder.moved_moved)
      fun _ _ _ hmove hb => OmsOrder.moved_balanced hb hmove)
  | partialFill orderId quantity price timestamp eventId =>
    refine Or.inr (move_puts h (fun _ _ _ => OmsOrder.partialFill_moved) ?_)
    intro o o' ho hmove hb
    exact OmsOrder.partialFill_balanced hb (hmeets o ho) hmove
  | fill orderId quantity price timestamp eventId =>
    exact Or.inr (move_puts h (fun _ _ _ => OmsOrder.fill_moved)
      fun _ _ _ hmove hb => OmsOrder.fill_balanced hb hmove)
  | replace orderId quantity timestamp limit eventId =>
    refine Or.inr (move_puts h (fun _ _ _ => OmsOrder.replace_moved) ?_)
    intro o o' ho hmove hb
    exact OmsOrder.replace_balanced hb (hmeets o ho) hmove
  | trigger orderId timestamp =>
    simp only [step, trigger, bind_ok, find_ok, pure_ok] at h
    obtain ⟨o, ho, h⟩ := h
    by_cases htriggered : o.triggeredAt.isSome = true
    · rw [if_pos htriggered] at h
      exact Or.inl h.symm
    · rw [if_neg htriggered] at h
      obtain rfl := h
      have hopen : o.isOpen = true := (hmeets o ho).resolve_right htriggered
      refine Or.inr ⟨_, store_puts ho ⟨rfl, rfl, rfl, hopen⟩ fun hb => ?_⟩
      exact ⟨hb.total, hb.nonneg, hb.most, hb.completes⟩

theorem step_closed (hmeets : call.Meets s) (h : s.step call = .ok t)
    (ho : s.orders.orders.get? orderId = some o) (hclosed : o.isOpen = false) :
    t.orders.orders.get? orderId = some o := by
  rcases step_cases hmeets h with rfl | ⟨w, hputs⟩
  · exact ho
  · rw [hputs.orders]
    refine (Register.get?_put_of_ne _ ?_).trans ho
    rintro rfl
    rcases hputs.comes with ⟨hnew, -⟩ | ⟨o₀, hold, hmoved, -⟩
    · rw [hnew] at ho
      cases ho
    · rw [hold] at ho
      obtain rfl := Option.some.inj ho
      rw [hmoved.isOpen] at hclosed
      cases hclosed

/-! ## Runs -/

/-- **The book is consistent**: every order's amounts agree, the active and the completed
    orders are the open and the closed ones of the book, and the working index lists each
    asset's active orders as they were placed. -/
structure Consistent (s : OmsState) : Prop where
  balanced : ∀ orderId o, s.orders.orders.get? orderId = some o → o.Balanced
  active : ∀ orderId, orderId ∈ s.activeOrders.members ↔
    ∃ o, s.orders.orders.get? orderId = some o ∧ o.isOpen = true
  completed : ∀ orderId, orderId ∈ s.completedOrders.members ↔
    ∃ o, s.orders.orders.get? orderId = some o ∧ o.isOpen = false
  working : ∀ assetId, s.workingOrdersFor assetId =
    (s.placed.filter fun o => o.isOpen && o.assetId = assetId).map (·.orderId)

/-- **A state restored**: all that two states are compared by, and the working orders of
    every asset in their order. -/
structure Restores (r s : OmsState) : Prop where
  orders : r.orders = s.orders
  active : r.activeOrders = s.activeOrders
  completed : r.completedOrders = s.completedOrders
  history : r.history = s.history
  events : r.events = s.events
  working : ∀ assetId, r.workingOrdersFor assetId = s.workingOrdersFor assetId

/-- Every order's amounts agree, and every index lists the book's orders. -/
structure Kept (s : OmsState) : Prop where
  balanced : ∀ orderId o, s.orders.orders.get? orderId = some o → o.Balanced
  indexed : s.Indexed

theorem step_kept (hs : s.Kept) (hmeets : call.Meets s) (h : s.step call = .ok t) : t.Kept := by
  rcases step_cases hmeets h with rfl | ⟨o, hputs⟩
  · exact hs
  · refine ⟨?_, hputs.indexed hs.indexed⟩
    intro orderId w hw
    rw [hputs.orders, Register.get?_put] at hw
    split_ifs at hw with hid
    · obtain rfl := Option.some.inj hw
      rcases hputs.comes with ⟨-, hbalanced⟩ | ⟨o₀, ho₀, -, hbalanced⟩
      · exact hbalanced
      · exact hbalanced (hs.balanced _ _ ho₀)
    · exact hs.balanced orderId w hw

theorem empty_kept : empty.Kept := by
  refine ⟨?_, empty_indexed⟩
  intro orderId o ho
  cases ho

theorem Kept.consistent (hs : s.Kept) : s.Consistent := by
  refine ⟨hs.balanced, ?_, hs.indexed.completed, hs.indexed.working⟩
  intro orderId
  rw [hs.indexed.active, List.mem_map]
  constructor
  · rintro ⟨o, ho, rfl⟩
    obtain ⟨hplaced, hopen⟩ := List.mem_filter.mp ho
    exact ⟨o, Register.mem_values.mp hplaced, hopen⟩
  · rintro ⟨o, ho, hopen⟩
    obtain ⟨hplaced, hid⟩ := placed_of_get? ho
    exact ⟨o, List.mem_filter.mpr ⟨hplaced, hopen⟩, hid⟩

theorem foldl_add (l : List OmsOrder) (book : OmsBook) :
    (l.foldl OmsBook.add book).orders = l.foldl Register.put book.orders ∧
      (l.foldl OmsBook.add book).byAsset =
        (l.map fun o => (o.assetId, o.orderId)).foldl (fun d e => d.enter e.1 e.2) book.byAsset ∧
      (l.foldl OmsBook.add book).byStrategy =
        ((l.filter (·.strategyId ≠ "")).map fun o => (o.strategyId, o.orderId)).foldl
          (fun d e => d.enter e.1 e.2) book.byStrategy := by
  induction l generalizing book with
  | nil => exact ⟨rfl, rfl, rfl⟩
  | cons o l ih =>
    obtain ⟨horders, hasset, hstrategy⟩ := ih (book.add o)
    rw [List.foldl_cons, horders, hasset, hstrategy]
    refine ⟨rfl, rfl, ?_⟩
    by_cases hempty : o.strategyId = ""
    · simp [OmsBook.add, hempty]
    · simp [OmsBook.add, hempty]

theorem foldl_add_placed (hs : s.Indexed) : s.placed.foldl OmsBook.add .empty = s.orders := by
  obtain ⟨horders, hasset, hstrategy⟩ := foldl_add s.placed .empty
  have hrebuilt : (s.placed.foldl OmsBook.add .empty).orders = s.orders.orders := by
    rw [horders]
    exact Register.foldl_put_values _
  cases hbook : s.placed.foldl OmsBook.add .empty with
  | mk orders byAsset byStrategy =>
    rw [hbook] at hrebuilt hasset hstrategy
    cases hold : s.orders with
    | mk orders' byAsset' byStrategy' =>
      have hbyAsset := hs.byAsset
      have hbyStrategy := hs.byStrategy
      rw [hold] at hrebuilt hbyAsset hbyStrategy
      dsimp only at hrebuilt hbyAsset hbyStrategy hasset hstrategy
      rw [hrebuilt, hbyAsset, hbyStrategy, hasset, hstrategy]
      rfl

/-- Entering orders of the book under their assets finds each of them. -/
theorem foldlM_enter {l : List OmsOrder} (d : Dict String (OrderedSet String))
    (hl : ∀ o ∈ l, s.orders.orders.get? o.orderId = some o) :
    (l.map (·.orderId)).foldlM
      (fun (working : Dict String (OrderedSet String)) orderId => do
        let order ← s.orders.find orderId
        pure (working.enter order.assetId orderId)) d =
      .ok ((l.map fun o => (o.assetId, o.orderId)).foldl (fun d e => d.enter e.1 e.2) d) := by
  induction l generalizing d with
  | nil => rfl
  | cons o l ih =>
    have hfind : s.orders.find o.orderId = .ok o := find_ok.mpr (hl o (by simp))
    rw [List.map_cons, List.foldlM_cons, hfind]
    exact ih (d.enter o.assetId o.orderId) fun w hw => hl w (by simp [hw])

/-- **The snapshot restores the state.** -/
theorem restore_capture (hs : s.Indexed) : ∃ r, s.capture.restore = .ok r ∧ r.Restores s := by
  have hworking := foldlM_enter (s := s) (l := s.placed.filter (·.isOpen)) .empty
    fun o ho => Register.mem_values.mp (List.mem_of_mem_filter ho)
  rw [← hs.active] at hworking
  have hbook : s.capture.orders.foldl OmsBook.add .empty = s.orders := foldl_add_placed hs
  have hrestore : s.capture.restore = .ok {
      orders := s.orders
      activeOrders := OrderedSet.ofList s.activeOrders.members
      completedOrders := OrderedSet.ofList s.completedOrders.members
      history := s.history
      events := s.events
      workingByAsset := Dict.grouped
        ((s.placed.filter (·.isOpen)).map fun o => (o.assetId, o.orderId)) } := by
    unfold OmsSnapshot.restore
    rw [hbook]
    exact bind_ok.mpr ⟨_, hworking, rfl⟩
  refine ⟨_, hrestore, rfl, s.activeOrders.ofList_members, s.completedOrders.ofList_members,
    rfl, rfl, ?_⟩
  intro assetId
  have hids : ((s.placed.filter (·.isOpen)).map (·.orderId)).Nodup := by
    rw [← hs.active]
    exact s.activeOrders.nodup
  have hpairs : ((s.placed.filter (·.isOpen)).map fun o => (o.assetId, o.orderId)).map Prod.snd =
      (s.placed.filter (·.isOpen)).map (·.orderId) := by
    rw [List.map_map]
    rfl
  rw [hs.working]
  refine (Dict.membersAt_grouped (hpairs ▸ hids) assetId).trans ?_
  rw [List.filter_map, List.map_map, List.filter_filter]
  refine congrArg (List.map _) (List.filter_congr fun o _ => ?_)
  exact Bool.and_comm _ _

def stopLimitOrder : OmsOrder where
  orderId := "A"
  strategyId := "S"
  assetId := "ABC"
  side := .buy
  orderType := .stopLimit
  status := .new
  quantity := 10
  filledQuantity := 0
  limitPrice := some 101
  stopPrice := some 100
  averageFillPrice := 0
  createdAt := 0
  updatedAt := 0
  remaining := 10

def after (calls : List OmsCall) : OmsState :=
  calls.foldl (fun s call => (s.step call).toOption.getD s) empty

end OmsState

end AlphaLab
