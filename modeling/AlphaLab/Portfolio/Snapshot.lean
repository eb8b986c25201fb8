/-
  Snapshots of the book in memory (`portfolio/snapshot.py`): `capture` projects
  a state, `restore` rebuilds it.

  The index of unsettled transactions is not captured but replayed, and the
  positions are keyed again by their own assets, so `restore (capture s) = s`
  where both are what the state holds (`restore_capture`).
-/
import AlphaLab.Portfolio.SettlementIndex

namespace AlphaLab

def portfolioSnapshotSchema : ℕ := 5

def EventBody.typeName : EventBody → String
  | cashDeposited .. => "CashDeposited"
  | cashWithdrawn .. => "CashWithdrawn"
  | positionOpened .. => "PositionOpened"
  | positionIncreased .. => "PositionIncreased"
  | positionReduced .. => "PositionReduced"
  | positionClosed .. => "PositionClosed"
  | marketValueUpdated .. => "MarketValueUpdated"
  | cashConverted .. => "CashConverted"
  | variationSettled .. => "VariationSettled"
  | cashFlowBooked .. => "CashFlowBooked"
  | positionExchanged .. => "PositionExchanged"
  | paymentAmended .. => "PaymentAmended"
  | deliveryAmended .. => "DeliveryAmended"
  | positionSplit .. => "PositionSplit"

/-- One portfolio event plus the tag needed to read it back as its own type. -/
structure PortfolioEventRecord where
  eventType : String
  event : PortfolioEvent

/-- Complete projection of a `PortfolioState`. -/
structure PortfolioSnapshot where
  account : Account
  balances : Dict String Decimal
  reserved : Dict String Decimal
  positions : List Position
  transactions : List Transaction
  events : List PortfolioEventRecord
  realizedPnl : Dict String Decimal
  commissionPaid : Dict String Decimal
  pendingMarks : List String
  schemaVersion : ℕ := portfolioSnapshotSchema

/-- `capture`: positions as an array, each its own key. -/
def capture (s : PortfolioState) : PortfolioSnapshot where
  account := s.account
  balances := s.cash.balances
  reserved := s.cash.reserved
  positions := s.positions.values
  transactions := s.ledger
  events := s.events.map fun e => ⟨e.body.typeName, e⟩
  realizedPnl := s.realizedPnl.amounts
  commissionPaid := s.commissionPaid.amounts
  pendingMarks := s.pendingMarks.members

/-- `restore`: the positions keyed by their own assets, the index replayed. -/
def restore (p : PortfolioSnapshot) : PortfolioState where
  account := p.account
  cash := { balances := p.balances, reserved := p.reserved }
  positions := Dict.ofList (p.positions.map fun position => (position.assetId, position))
  ledger := p.transactions
  events := p.events.map (·.event)
  realizedPnl := ⟨p.realizedPnl⟩
  commissionPaid := ⟨p.commissionPaid⟩
  pendingMarks := SortedSet.ofList p.pendingMarks
  unsettled := pendingFrom p.transactions

theorem ofList_positions {positions : Dict String Position}
    (hkeyed : ∀ asset p, positions.get? asset = some p → p.assetId = asset) :
    Dict.ofList (positions.values.map fun position => (position.assetId, position)) =
      positions := by
  have hentries : positions.values.map (fun position => (position.assetId, position)) =
      positions.entries := by
    rw [Dict.values, List.map_map]
    conv_rhs => rw [← List.map_id positions.entries]
    refine List.map_congr_left fun e he => ?_
    exact Prod.ext (hkeyed e.1 e.2 ((positions.get?_eq_some).mpr he)) rfl
  rw [hentries, Dict.ofList_entries]

/-- **A snapshot restores the state it was captured from**, where the positions
    are keyed by their assets: iff the index is what the ledger implies. -/
theorem restore_capture {s : PortfolioState} {units : CurrencyUnits}
    (hwell : WellBooked units s.positions) :
    restore (capture s) = s ↔ s.unsettled = pendingFrom s.ledger := by
  have hevents : (s.events.map fun e => (⟨e.body.typeName, e⟩ : PortfolioEventRecord)).map
      (·.event) = s.events := by
    rw [List.map_map]
    exact List.map_id s.events
  constructor
  · intro h
    conv_lhs => rw [← h]
    rfl
  · intro h
    obtain ⟨account, cash, positions, ledger, events, realized, commission, marks, unsettled⟩ := s
    simp only [restore, capture] at hevents h ⊢
    rw [ofList_positions fun asset p hp => (hwell asset p hp).1, hevents,
      SortedSet.ofList_members, ← h]

end AlphaLab
