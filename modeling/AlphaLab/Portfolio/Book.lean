/-
  The book of open positions, with the totals a valuation reads kept as it changes
  (`portfolio/book.py`).

  * `CurrencyTotals` is what the positions declaring one currency sum to, `applyTo` adds or
    removes one of them, `movedTo` re-values one on its side;
  * `BookGroups` is which groups an asset belongs to, `regrouped` moves an asset's value in
    the gross kept for each;
  * `PositionBook` is the mapping with its entries and totals; `ofPositions` walks a mapping
    once, `set`, `delete` and `grouped` change what is kept.
-/
import AlphaLab.Lib.Runs
import AlphaLab.Lib.SortedSet
import AlphaLab.Portfolio.Position

namespace AlphaLab

open Fallible

inductive BookRefusal where
  | notItsOwn (assetId booked : String)
  /-- `PortfolioError`: a sum of more digits than the context has. -/
  | inexact (total amount : Decimal)
  | missing (key : String)

/-- `_EXACT.add`, `_exact_sum`, `_difference`: a sum, exactly. -/
def exactSum (total amount : Decimal) : Except BookRefusal Decimal := do
  require (Exact (total + amount)) (.inexact total amount)
  pure (total + amount)

/-- `_add`: a sum, exactly, or nothing when nothing is left to sum. -/
def addCounted (total amount : Decimal) (count : ℤ) : Except BookRefusal Decimal :=
  if count = 0 then pure 0 else exactSum total amount

def addOnSide (onSide : Bool) (total amount : Decimal) (count : ℤ) :
    Except BookRefusal Decimal :=
  if onSide then addCounted total amount count else pure total

/-! ## Totals by currency -/

structure BookEntry where
  value : Decimal
  pnl : Decimal
  uncarried : Decimal

def Position.entry (p : Position) : BookEntry where
  value := p.marketValue
  pnl := p.unrealizedPnl
  uncarried := if p.paysNotional then 0 else p.marketValue - p.unrealizedPnl

@[ext] structure CurrencyTotals where
  positions : ℤ
  longs : ℤ
  shorts : ℤ
  longValue : Decimal
  shortValue : Decimal
  unrealizedPnl : Decimal
  uncarriedValue : Decimal
deriving DecidableEq

namespace CurrencyTotals

/-- `_NO_TOTALS` -/
instance : Zero CurrencyTotals := ⟨⟨0, 0, 0, 0, 0, 0, 0⟩⟩

variable (t : CurrencyTotals)

/-- `_apply`: a position added, with a sign of one, or removed, with minus one. -/
def applyTo (position : Position) (entry : BookEntry) (sign : ℤ) :
    Except BookRefusal CurrencyTotals := do
  let longs := if 0 < position.quantity then t.longs + sign else t.longs
  let shorts := if position.quantity < 0 then t.shorts + sign else t.shorts
  let longValue ← addOnSide (0 < position.quantity) t.longValue (sign * entry.value) longs
  let shortValue ← addOnSide (position.quantity < 0) t.shortValue (sign * entry.value) shorts
  let unrealized ← addCounted t.unrealizedPnl (sign * entry.pnl) (longs + shorts)
  let settled ← addCounted t.uncarriedValue (sign * entry.uncarried) (longs + shorts)
  pure ⟨t.positions + sign, longs, shorts, longValue, shortValue, unrealized, settled⟩

/-- `_moved`: an open position re-valued on its side. -/
def movedTo (long : Bool) (old new : BookEntry) : Except BookRefusal CurrencyTotals := do
  let valueChange ← exactSum new.value (-old.value)
  let longValue ← addOnSide long t.longValue valueChange t.longs
  let shortValue ← addOnSide (!long) t.shortValue valueChange t.shorts
  let pnlChange ← exactSum new.pnl (-old.pnl)
  let unrealized ← addCounted t.unrealizedPnl pnlChange (t.longs + t.shorts)
  let uncarriedChange ← exactSum new.uncarried (-old.uncarried)
  let settled ← addCounted t.uncarriedValue uncarriedChange (t.longs + t.shorts)
  pure { t with
    longValue := longValue
    shortValue := shortValue
    unrealizedPnl := unrealized
    uncarriedValue := settled }

end CurrencyTotals

abbrev TotalsTable := Dict String CurrencyTotals

def TotalsTable.kept (totals : TotalsTable) : TotalsTable :=
  ⟨totals.entries.filter (·.2.positions ≠ 0), totals.nodup.sublist (List.filter_sublist.map _)⟩

/-! ## Gross by group -/

/-- `BookGroups`: which groups each asset belongs to. -/
structure BookGroups where
  dimensions : List String
  keys : Dict String (List (String × String))

def BookGroups.keysOf (groups : BookGroups) (assetId : String) : List (String × String) :=
  (groups.keys.get? assetId).getD []

structure GroupKey where
  dimension : String
  label : String
  currency : String
deriving DecidableEq

/-- How many positions each group holds in a currency, and their gross. -/
abbrev GroupTotals := Dict GroupKey (ℤ × Decimal)

abbrev HeldValue := String × Decimal

/-- The groups with a holding of one of them re-marked or resized in its currency. -/
def moveGross (key : GroupKey) (old new : Decimal) (totals : GroupTotals) :
    Except BookRefusal GroupTotals := do
  let (count, gross) ← orRefuse (totals.get? key) (.missing key.label)
  let change ← exactSum |new| (-|old|)
  let moved ← exactSum gross change
  pure (totals.set key (count, moved))

def removeGross (key : GroupKey) (old : Decimal) (totals : GroupTotals) :
    Except BookRefusal GroupTotals := do
  let (count, gross) ← orRefuse (totals.get? key) (.missing key.label)
  if count = 1 then pure (totals.delete key)
  else do
    let left ← exactSum gross (-|old|)
    pure (totals.set key (count - 1, left))

def addGross (key : GroupKey) (new : Decimal) (totals : GroupTotals) :
    Except BookRefusal GroupTotals := do
  let (count, gross) := (totals.get? key).getD (0, 0)
  let grown ← exactSum gross |new|
  pure (totals.set key (count + 1, grown))

def regroupOne (old new : Option HeldValue) (totals : GroupTotals) (group : String × String) :
    Except BookRefusal GroupTotals :=
  let key : String → GroupKey := fun currency => ⟨group.1, group.2, currency⟩
  match old, new with
  | some old, some new =>
    if old.1 = new.1 then moveGross (key new.1) old.2 new.2 totals
    else removeGross (key old.1) old.2 totals >>= addGross (key new.1) new.2
  | some old, none => removeGross (key old.1) old.2 totals
  | none, some new => addGross (key new.1) new.2 totals
  | none, none => pure totals

/-- `_regrouped`: the groups of an asset with its holding moved. -/
def regrouped (groups : Option BookGroups) (totals : GroupTotals) (assetId : String)
    (old new : Option HeldValue) : Except BookRefusal GroupTotals :=
  match groups with
  | none => pure totals
  | some groups => (groups.keysOf assetId).foldlM (regroupOne old new) totals

/-! ## The book -/

structure PositionBook where
  positions : Dict String Position
  entries : Dict String BookEntry
  totals : TotalsTable
  groups : Option BookGroups
  groupTotals : GroupTotals

namespace PositionBook

def enter (totals : TotalsTable) (p : Position) : Except BookRefusal TotalsTable := do
  let added ← ((totals.get? p.currency).getD 0).applyTo p p.entry 1
  pure (totals.set p.currency added)

/-- `PositionBook(positions)`: a mapping walked once. -/
def ofPositions (positions : Dict String Position) : Except BookRefusal PositionBook := do
  let totals ← positions.values.foldlM enter Dict.empty
  pure {
    positions := positions
    entries := positions.mapValues Position.entry
    totals := totals
    groups := none
    groupTotals := Dict.empty }

variable (book : PositionBook)

def enterGroups (groups : BookGroups) (totals : GroupTotals) (held : String × BookEntry) :
    Except BookRefusal GroupTotals := do
  let position ← orRefuse (book.positions.get? held.1) (.missing held.1)
  (groups.keysOf held.1).foldlM
    (fun totals group => addGross ⟨group.1, group.2, position.currency⟩ held.2.value totals) totals

def grouped (groups : Option BookGroups) : Except BookRefusal PositionBook :=
  match groups with
  | none => pure { book with groups := none, groupTotals := Dict.empty }
  | some groups => do
    let totals ← book.entries.entries.foldlM (book.enterGroups groups) Dict.empty
    pure { book with groups := some groups, groupTotals := totals }

def holding (assetId : String) : Option HeldValue := do
  let position ← book.positions.get? assetId
  let entry ← book.entries.get? assetId
  pure (position.currency, entry.value)

def withdrawn (assetId : String) (previous : Position) : Except BookRefusal TotalsTable := do
  let totals ← orRefuse (book.totals.get? previous.currency) (.missing previous.currency)
  let entry ← orRefuse (book.entries.get? assetId) (.missing assetId)
  let removed ← totals.applyTo previous entry (-1)
  pure (book.totals.set previous.currency removed)

def revalued (assetId : String) (position : Position) : Except BookRefusal TotalsTable := do
  let totals ← orRefuse (book.totals.get? position.currency) (.missing position.currency)
  let entry ← orRefuse (book.entries.get? assetId) (.missing assetId)
  let moved ← totals.movedTo (0 < position.quantity) entry position.entry
  pure (book.totals.set position.currency moved)

/-- Whether a position is re-valued, resized or re-marked on the side of another. -/
def sameSide (previous position : Position) : Bool :=
  previous.currency = position.currency &&
    ((0 < previous.quantity && 0 < position.quantity) ||
      (previous.quantity < 0 && position.quantity < 0))

/-- The totals of the book with `assetId` holding `position`. -/
def totalsWith (assetId : String) (position : Position) : Except BookRefusal TotalsTable :=
  match book.positions.get? assetId with
  | none => TotalsTable.kept <$> enter book.totals position
  | some previous =>
    if sameSide previous position then book.revalued assetId position
    else do
      let removed ← book.withdrawn assetId previous
      TotalsTable.kept <$> enter removed position

def set (assetId : String) (position : Position) : Except BookRefusal PositionBook := do
  require (position.assetId = assetId) (.notItsOwn position.assetId assetId)
  let groupTotals ← regrouped book.groups book.groupTotals assetId (book.holding assetId)
    (some (position.currency, position.entry.value))
  let totals ← book.totalsWith assetId position
  pure { book with
    positions := book.positions.set assetId position
    entries := book.entries.set assetId position.entry
    totals := totals
    groupTotals := groupTotals }

/-- `delete`: the same book if it holds none. -/
def delete (assetId : String) : Except BookRefusal PositionBook :=
  match book.positions.get? assetId with
  | none => pure book
  | some previous => do
    let totals ← book.withdrawn assetId previous
    let groupTotals ← regrouped book.groups book.groupTotals assetId (book.holding assetId) none
    pure { book with
      positions := book.positions.delete assetId
      entries := book.entries.delete assetId
      totals := totals.kept
      groupTotals := groupTotals }

def currencies : SortedSet String := SortedSet.ofList book.totals.keys

/-- `totals` -/
def totalsOf (currency : String) : CurrencyTotals := (book.totals.get? currency).getD 0

/-- `group_gross`: the gross of a group, by currency; none along a dimension not kept. -/
def groupGross (dimension label : String) : Option (Dict String Decimal) := do
  let groups ← book.groups
  if dimension ∈ groups.dimensions then
    some (Dict.empty.setAll (book.totals.keys.filterMap fun currency =>
      (book.groupTotals.get? ⟨dimension, label, currency⟩).map fun held => (currency, held.2)))
  else none

end PositionBook

inductive BookCall where
  | set (assetId : String) (position : Position)
  | delete (assetId : String)
  | grouped (groups : Option BookGroups)

def PositionBook.call (book : PositionBook) : BookCall → Except BookRefusal PositionBook
  | .set assetId position => book.set assetId position
  | .delete assetId => book.delete assetId
  | .grouped groups => book.grouped groups

end AlphaLab
