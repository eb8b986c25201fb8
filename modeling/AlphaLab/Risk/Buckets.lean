/-
  What the risk gate reads of the buckets that classification limits bound
  (`runtime/execution_pipeline.py`: `_book_groups`, `_grouped_book`, `_bucket_exposures`,
  `_kept_bucket_gross`, `_committed_value`, `_risk_exposure`).

  * `bookGroups` is the grouping a book keeps gross figures by, `GroupedBook` a book with the
    registry its grouping was derived from.
  * `AssetValues` are the market values the gate values a book at: the book's own, or a mapping.
  * `keptBucketGross` reads a bucket's gross from the book, `memberGross` sums its members;
    `bucketExposures` is given to the gate.
  * `BucketView` is what the gate reads of a state, `BucketStep` what may become of it.
-/
import AlphaLab.Instrument.Registry
import AlphaLab.Portfolio.Book

namespace AlphaLab

open Fallible

variable {ρ : Type}

/-! ## Groupings -/

/-- A run's registry, and which object it is: groupings are compared by that. -/
structure RunInstruments (ρ : Type) where
  object : ℕ
  registry : InstrumentRegistry ρ

def InstrumentRegistry.bucketMembers (registry : InstrumentRegistry ρ)
    (dimension label : String) : List String :=
  ((registry.members.get? dimension).bind (·.get? label)).elim [] Dict.keys

def addKey (group : String × String) (keys : Dict String (List (String × String)))
    (assetId : String) : Dict String (List (String × String)) :=
  keys.set assetId ((keys.get? assetId).getD [] ++ [group])

def dimensionKeys (members : Members) (keys : Dict String (List (String × String)))
    (dimension : String) : Dict String (List (String × String)) :=
  ((members.get? dimension).getD .empty).entries.foldl
    (fun keys bucket => bucket.2.keys.foldl (addKey (dimension, bucket.1)) keys) keys

def limitedDimensions (limits : List ClassificationLimit) : List String :=
  (SortedSet.ofList (limits.map (·.dimension))).members

/-- `_book_groups`: the buckets that limits bound, as groups for a book to total. -/
def bookGroups (registry : InstrumentRegistry ρ) (limits : List ClassificationLimit) :
    Option BookGroups :=
  let dimensions := limitedDimensions limits
  if dimensions = [] then none
  else some ⟨dimensions, dimensions.foldl (dimensionKeys registry.members) .empty⟩

structure GroupedBook where
  book : PositionBook
  source : Option ℕ

/-- `_grouped_book`: a book that keeps the gross of every bucket that limits bound. -/
def GroupedBook.group (held : GroupedBook) (instruments : RunInstruments ρ)
    (limits : List ClassificationLimit) : Except BookRefusal GroupedBook :=
  match bookGroups instruments.registry limits with
  | none => pure held
  | some groups => do
    let book ← held.book.grouped (some groups)
    pure ⟨book, some instruments.object⟩

/-! ## Values -/

/-- `ExposureStatus.asset_exposure`: the values of a book, or a mapping of values. -/
inductive AssetValues where
  | ofBook (held : GroupedBook)
  | copied (values : Dict String Decimal)

namespace AssetValues

def filled : AssetValues → String → Decimal
  | ofBook held, assetId => ((held.book.entries.get? assetId).map (·.value)).getD 0
  | copied values, assetId => (values.get? assetId).getD 0

variable (values : AssetValues) (working : Dict String WorkingExposure)

/-- `_committed_value` -/
def committed (assetId : String) : Decimal :=
  committedValue (values.filled assetId) (working.get? assetId)

def exactly (x : Decimal) : Option Decimal := if Exact x then some x else none

/-- A member with working orders counted at what they commit instead. -/
def recount (total : Decimal) (assetId : String) : Option Decimal := do
  let others ← exactly (total - |values.filled assetId|)
  exactly (others + |values.committed working assetId|)

/-- `_kept_bucket_gross`: a bucket's committed gross from the book's kept total, or none. -/
def keptBucketGross (instruments : RunInstruments ρ) (dimension label base : String) :
    Option Decimal :=
  match values with
  | copied _ => none
  | ofBook held =>
    if held.source ≠ some instruments.object then none
    else (held.book.groupGross dimension label).bind fun kept =>
      if kept.keys.any (· ≠ base) then none
      else (working.keys.filter fun assetId =>
          decide (instruments.registry.labelOf assetId dimension = some label)).foldlM
        (values.recount working) ((kept.get? base).getD 0)

def memberValues (registry : InstrumentRegistry ρ) (dimension label : String) : List Decimal :=
  (registry.bucketMembers dimension label).map fun member => |values.committed working member|

def memberGross (registry : InstrumentRegistry ρ) (dimension label : String) : Decimal :=
  (values.memberValues working registry dimension label).foldl add 0

end AssetValues

/-- The bucket an order's instrument is in along a dimension, its gross figured by `gross`. -/
def bucketExposure (gross : String → String → Decimal) (values : AssetValues)
    (working : Dict String WorkingExposure) (registry : InstrumentRegistry ρ)
    (request : OrderRequest) (price : Decimal) (dimension : String) : BucketExposure :=
  match registry.labelOf request.assetId dimension with
  | none => ⟨dimension, none, 0, 0⟩
  | some label =>
    let committed := gross dimension label
    let here := values.committed working request.assetId
    let orderValue := multiply (request.side.signed request.quantity) price
    ⟨dimension, some label, committed,
      add (subtract committed |here|) |add here orderValue|⟩

/-- `_bucket_exposures`: the kept figure where there is one, else the sum over the members. -/
def bucketExposures (instruments : RunInstruments ρ) (limits : List ClassificationLimit)
    (base : String) (values : AssetValues) (request : OrderRequest) (price : Decimal)
    (working : Dict String WorkingExposure) : List BucketExposure :=
  (limitedDimensions limits).map (bucketExposure
    (fun dimension label =>
      (values.keptBucketGross working instruments dimension label base).getD
        (values.memberGross working instruments.registry dimension label))
    values working instruments.registry request price)

def summedExposures (instruments : RunInstruments ρ) (limits : List ClassificationLimit)
    (values : AssetValues) (request : OrderRequest) (price : Decimal)
    (working : Dict String WorkingExposure) : List BucketExposure :=
  (limitedDimensions limits).map (bucketExposure
    (values.memberGross working instruments.registry) values working instruments.registry
    request price)

/-- What the gate reads of a state's book, and of its exposure. -/
structure BucketView where
  held : GroupedBook
  values : AssetValues

inductive BucketStep (ρ : Type) where
  | book (assetId : String) (position : Position)
  | remove (assetId : String)
  /-- `_risk_exposure`, with the values converted into the base currency. -/
  | resync (converted : Dict String Decimal)
  | group (instruments : RunInstruments ρ) (limits : List ClassificationLimit)
  | restore (positions : Dict String Position) (values : Dict String Decimal)

def BucketView.step (base : String) (view : BucketView) :
    BucketStep ρ → Except BookRefusal BucketView
  | .book assetId position => do
    let book ← view.held.book.set assetId position
    pure { view with held := { view.held with book := book } }
  | .remove assetId => do
    let book ← view.held.book.delete assetId
    pure { view with held := { view.held with book := book } }
  | .resync converted =>
    let currencies := view.held.book.currencies.members
    pure { view with
      values := if currencies = [] ∨ currencies = [base] then .ofBook view.held
        else .copied converted }
  | .group instruments limits => do
    let held ← view.held.group instruments limits
    pure { view with held := held }
  | .restore positions values => do
    let book ← PositionBook.ofPositions positions
    pure ⟨⟨book, none⟩, .copied values⟩

/-- A run begins with a book that groups by nothing, and no exposure. -/
def BucketView.initial (book : PositionBook) : BucketView := ⟨⟨book, none⟩, .copied .empty⟩

end AlphaLab
