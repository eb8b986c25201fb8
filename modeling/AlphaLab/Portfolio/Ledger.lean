/-
  The transaction ledger and the index of what has not settled
  (`portfolio/transaction.py`, `portfolio/types.py`, `portfolio/settlement.py`).

  * A `Transaction` carries its `Metadata`: the keys the ledger writes, each
    absent or with the value it was written with.
  * `settlePending` and `amendPending` keep the index of `PendingSettlement`s;
    `pendingFrom` replays a ledger through them, one `pendingStep` a
    transaction.
-/
import AlphaLab.Portfolio.Money

namespace AlphaLab

/-- A ledger transaction's identifier: unique in its ledger, where it is the
    position at which the transaction was appended. -/
abbrev TransactionId := ℕ

inductive TransactionType where
  | buy | sell | dividend | deposit | withdrawal | fee | interest | transfer
  | variationMargin | funding | exchange | accrual
deriving DecidableEq

/-- What an issuer's later word does to a corporate action's payment. -/
inductive PaymentChange where
  | delayed | failed | corrected | reversed | replaced
deriving DecidableEq

/-- What amendments name a corporate action's entitlement by (`entitlement_key`). -/
structure EntitlementKey where
  holding : String
  effectiveAt : Instant
deriving DecidableEq

/-- What undelivered units may do before they arrive. -/
structure DeliveryConvention where
  sellable : Bool := false
  collateral : Bool := false
deriving DecidableEq

/-- A transaction's metadata: each key absent, or with the value written. -/
structure Metadata where
  settlesAt : Option Instant := none
  settlementCash : Option Decimal := none
  exchange : Option String := none
  entitlement : Option EntitlementKey := none
  paymentChange : Option PaymentChange := none
  affects : Option (List TransactionId) := none
  perUnit : Option Decimal := none
  delivers : Option Decimal := none
  deliveryOf : Option EntitlementKey := none
  deliveryParts : Option (List (String × Decimal)) := none
  deliveryBasis : Option Decimal := none
  deliveryTerms : Option DeliveryConvention := none
  accrues : Option String := none
  accrualClosed : Bool := false
deriving DecidableEq

structure Transaction where
  transactionId : TransactionId
  timestamp : Instant
  accountId : String
  type : TransactionType
  assetId : String
  quantity : Decimal
  price : Decimal
  commission : Decimal
  currency : String
  metadata : Metadata := {}
deriving DecidableEq

/-- One fill, payment or delivery whose cash and units have not settled yet. -/
structure PendingSettlement where
  transactionId : TransactionId
  assetId : String
  currency : String
  cash : Decimal
  quantity : Decimal
  tradedAt : Instant
  settlesAt : Instant
  delivery : Option DeliveryConvention := none
deriving DecidableEq

/-- Whether the entry is still unsettled at `at_`. -/
def PendingSettlement.pendingAt (e : PendingSettlement) (at_ : Instant) : Bool :=
  decide (at_ < e.settlesAt)

/-! ## The index -/

/-- `pending` without what has settled by `at_`, and with `new`, if it is pending. -/
def settlePending (pending : List PendingSettlement) (at_ : Instant)
    (new : Option PendingSettlement := none) : List PendingSettlement :=
  let kept := pending.filter (·.pendingAt at_)
  match new with
  | some e => if e.pendingAt at_ then kept ++ [e] else kept
  | none => kept

/-- `transaction`'s cash, or the units it delivers, pending until `settlesAt`. -/
def entryOf (transaction : Transaction) (settlesAt : Instant) : PendingSettlement :=
  match transaction.metadata.delivers with
  | some delivered =>
    { transactionId := transaction.transactionId
      assetId := transaction.assetId
      currency := transaction.currency
      cash := 0
      quantity := delivered
      tradedAt := transaction.timestamp
      settlesAt := settlesAt
      delivery := some (transaction.metadata.deliveryTerms.getD {}) }
  | none =>
    { transactionId := transaction.transactionId
      assetId := transaction.assetId
      currency := transaction.currency
      -- an exchange's cash moves no units: its quantity is the cash
      cash := transaction.metadata.settlementCash.getD transaction.quantity
      quantity := if transaction.type = .exchange then 0 else transaction.quantity
      tradedAt := transaction.timestamp
      settlesAt := settlesAt }

/-- An exchange leg's units owed until `settlesAt`. -/
def deliveryEntry (transaction : Transaction) (settlesAt : Instant) : PendingSettlement where
  transactionId := transaction.transactionId
  assetId := transaction.assetId
  currency := transaction.currency
  cash := 0
  quantity := transaction.metadata.delivers.getD 0
  tradedAt := transaction.timestamp
  settlesAt := settlesAt
  delivery := some (transaction.metadata.deliveryTerms.getD {})

def findBooked (booked : List Transaction) (i : TransactionId) : Option Transaction :=
  booked.find? (·.transactionId = i)

/-- `pending` as an amendment leaves it: re-dated, or closed. -/
def amendPending (pending : List PendingSettlement) (amendment : Transaction)
    (booked : List Transaction) : List PendingSettlement :=
  let affected := amendment.metadata.affects.getD []
  let kept := pending.filter (·.transactionId ∉ affected)
  match amendment.metadata.paymentChange with
  | some .delayed =>
    kept ++ (affected.filterMap (findBooked booked)).map
      (entryOf · (amendment.metadata.settlesAt.getD 0))
  | some .failed | some .reversed | some .replaced => kept
  | some .corrected | none => pending

/-- Whether a transaction keeps the index: a fill, or an exchange's cash. -/
def TransactionType.keepsPending : TransactionType → Bool
  | buy | sell | exchange => true
  | _ => false

/-- One transaction of `pending_from`'s replay: the index, and the exchange
    transactions booked so far. -/
def pendingStep (acc : List PendingSettlement × List Transaction) (transaction : Transaction) :
    List PendingSettlement × List Transaction :=
  let (pending, booked) := acc
  if ¬ transaction.type.keepsPending then acc
  else
    let booked := if transaction.type = .exchange then booked ++ [transaction] else booked
    let amends : Bool := transaction.type = .exchange ∧ transaction.metadata.paymentChange.isSome
    let pending :=
      if amends then amendPending (settlePending pending transaction.timestamp) transaction booked
      else pending
    if amends ∧ transaction.metadata.paymentChange = some .delayed then (pending, booked)
    else
      let entry := transaction.metadata.settlesAt.map (entryOf transaction)
      (settlePending pending transaction.timestamp entry, booked)

/-- The index a ledger implies: its transactions replayed, in order. -/
def pendingFrom (transactions : List Transaction) : List PendingSettlement :=
  (transactions.foldl pendingStep ([], [])).1

/-- Whether `transaction` booked or amended one currency's payment of an action. -/
def inPaymentChain (holding : String) (effectiveAt : Instant) (currency : String)
    (transaction : Transaction) : Bool :=
  decide (transaction.type = .exchange) && decide (transaction.currency = currency) &&
    match transaction.metadata.entitlement with
    | some key => decide (key = ⟨holding, effectiveAt⟩)
    | none => decide (transaction.assetId = holding) && decide (transaction.timestamp = effectiveAt)

def paymentChain (transactions : List Transaction) (holding : String) (effectiveAt : Instant)
    (currency : String) : List Transaction :=
  transactions.filter (inPaymentChain holding effectiveAt currency)

theorem replay_booked (transactions : List Transaction) :
    (transactions.foldl pendingStep ([], [])).2 = transactions.filter (·.type = .exchange) := by
  induction transactions using List.reverseRecOn with
  | nil => rfl
  | append_singleton l t ih =>
    rw [List.foldl_append, List.foldl_cons, List.foldl_nil, List.filter_append, ← ih]
    generalize l.foldl pendingStep ([], []) = acc
    obtain ⟨pending, booked⟩ := acc
    by_cases hex : t.type = .exchange
    · simp only [pendingStep, hex, TransactionType.keepsPending]
      split_ifs <;> simp_all
    · cases ht : t.type <;> simp_all [pendingStep, TransactionType.keepsPending]

theorem pendingFrom_append (l : List Transaction) (t : Transaction) :
    pendingFrom (l ++ [t]) =
      (pendingStep (pendingFrom l, l.filter (·.type = .exchange)) t).1 := by
  rw [pendingFrom, List.foldl_append, List.foldl_cons, List.foldl_nil, ← replay_booked, pendingFrom]

theorem settlePending_pendingAt {pending : List PendingSettlement} {at_ : Instant}
    {new : Option PendingSettlement} {e : PendingSettlement}
    (h : e ∈ settlePending pending at_ new) : e.pendingAt at_ = true := by
  cases new with
  | none => simpa [settlePending] using (List.mem_filter.mp h).2
  | some n =>
    simp only [settlePending] at h
    split_ifs at h with hn
    · rcases List.mem_append.mp h with h | h
      · exact (List.mem_filter.mp h).2
      · rwa [List.mem_singleton.mp h]
    · exact (List.mem_filter.mp h).2

theorem settlePending_of_pending {pending : List PendingSettlement} {at_ : Instant}
    (h : ∀ e ∈ pending, e.pendingAt at_ = true) : settlePending pending at_ = pending :=
  List.filter_eq_self.mpr h

end AlphaLab
