/-
  The registry of declared instruments (`instrument/registry.py`).

  * `DatedAlias`, `DeclaredInstrument`, `Classification`: what is declared, as far as the registry
    reads it; what else a record holds is compared and kept (`rest`).
  * `InstrumentRegistry` with the indexes it keeps; `index` builds the members from what is
    declared, `relabelled` moves a member.
-/
import AlphaLab.Lib.Buckets
import AlphaLab.Margin.Position

namespace AlphaLab

open Fallible Buckets

/-! ## Declarations -/

inductive RegistryRefusal where
  | input | registration

/-- How text is read: `str.strip`, `str.lower` and `str.isprintable`. -/
structure TextRules where
  strip : String → String
  lower : String → String
  isPrintable : String → Bool

/-- `normalize_sector_label`, and the check of a `source`. -/
def normalizeSectorLabel (text : TextRules) (value : String) : Except RegistryRefusal String := do
  require (text.strip value ≠ "") .input
  require (text.isPrintable (text.strip value) = true) .input
  pure (text.strip value)

/-- `_DIMENSION`: lowercase letters, digits, and `_`, `-` or `.` after the first character. -/
def isDimensionName (name : String) : Bool :=
  let alphanumeric := fun c : Char => ('a' ≤ c ∧ c ≤ 'z') ∨ ('0' ≤ c ∧ c ≤ '9')
  match name.toList with
  | [] => false
  | first :: rest => decide (alphanumeric first) && decide (rest.length ≤ 63) &&
    rest.all fun c => alphanumeric c ∨ c ∈ ['_', '-', '.']

def normalizeDimension (text : TextRules) (value : String) : Except RegistryRefusal String := do
  require (isDimensionName (text.lower (text.strip value)) = true) .input
  pure (text.lower (text.strip value))

/-- `SECTOR` -/
def sectorDimension : String := "sector"

/-- `DatedAlias`: a provider's symbol over `[validFrom, validTo)`. -/
structure DatedAlias where
  provider : String
  symbol : String
  validFrom : Option Instant
  validTo : Option Instant
  nonempty : ∀ start ∈ validFrom, ∀ «end» ∈ validTo, start < «end» := by simp
deriving DecidableEq

/-- What meanings are ordered by: one from before the data begins comes first. -/
def DatedAlias.start (alias_ : DatedAlias) : WithBot Instant :=
  alias_.validFrom.elim ⊥ fun start => (start : WithBot Instant)

def DatedAlias.Covers (alias_ : DatedAlias) (timestamp : Instant) : Prop :=
  (∀ start ∈ alias_.validFrom, start ≤ timestamp) ∧ ∀ «end» ∈ alias_.validTo, timestamp < «end»

instance (alias_ : DatedAlias) (timestamp : Instant) : Decidable (alias_.Covers timestamp) :=
  inferInstanceAs (Decidable (_ ∧ _))

def DatedAlias.Overlaps (alias_ other : DatedAlias) : Prop :=
  (∀ start ∈ alias_.validFrom, ∀ «end» ∈ other.validTo, start < «end») ∧
    ∀ start ∈ other.validFrom, ∀ «end» ∈ alias_.validTo, start < «end»

instance (alias_ other : DatedAlias) : Decidable (alias_.Overlaps other) :=
  inferInstanceAs (Decidable (_ ∧ _))

/-- `InstrumentRecord`, as far as the registry reads it: `borrow` holds the buy-in deadline of
    each entry of the borrow terms, `rest` what is only compared. -/
structure DeclaredInstrument (ρ : Type) where
  assetId : String
  sector : Option String := none
  aliases : Dict String String := .empty
  datedAliases : List DatedAlias := []
  lastTradeAt : Option Instant := none
  margin : Option InstrumentMarginTerms := none
  borrow : Option (List (Option Instant)) := none
  rest : ρ

/-- Whether the borrow terms declare a buy-in deadline (`recalls`). -/
def DeclaredInstrument.recalls {ρ : Type} (record : DeclaredInstrument ρ) : Bool :=
  record.borrow.elim false fun entries => entries.any (·.isSome)

/-- Whether two records are equal; aliases are equal as mappings. -/
def DeclaredInstrument.Agrees {ρ : Type} (a b : DeclaredInstrument ρ) : Prop :=
  a.assetId = b.assetId ∧ a.sector = b.sector ∧
    ((∀ e ∈ a.aliases.entries, b.aliases.get? e.1 = some e.2) ∧
      ∀ e ∈ b.aliases.entries, a.aliases.get? e.1 = some e.2) ∧
    a.datedAliases = b.datedAliases ∧ a.lastTradeAt = b.lastTradeAt ∧ a.margin = b.margin ∧
    a.borrow = b.borrow ∧ a.rest = b.rest

instance {ρ : Type} [DecidableEq ρ] (a b : DeclaredInstrument ρ) : Decidable (a.Agrees b) :=
  inferInstanceAs (Decidable (_ ∧ _))

/-- `SectorClassification` or `DimensionClassification` -/
structure Classification where
  label : Option String
  source : String
  asOf : Option Instant
deriving DecidableEq

def Classification.of (text : TextRules) (label : Option String) (source : String)
    (asOf : Option Instant) : Except RegistryRefusal Classification := do
  let label ← label.elim (.ok none) fun value => some <$> normalizeSectorLabel text value
  let source ← normalizeSectorLabel text source
  pure ⟨label, source, asOf⟩

/-- `label` of a history: that of the last act. -/
def currentLabel (history : List Classification) : Option String :=
  history.getLast?.bind (·.label)

/-! ## The registry -/

abbrev Members := Index String String String

/-- `InstrumentRegistry`, as far as declarations and classifications change it. -/
structure InstrumentRegistry (ρ : Type) where
  instruments : Dict String (DeclaredInstrument ρ)
  byProvider : Dict String (Dict String String)
  classifications : Dict String (List Classification)
  dated : Dict String (Dict String (List (DatedAlias × String)))
  dimensions : Dict String (Dict String (List Classification))
  members : Members
  expiring : Dict String Instant
  margined : Dict String Unit
  recallable : Dict String Unit

def index {ρ : Type} (instruments : Dict String (DeclaredInstrument ρ))
    (dimensions : Dict String (Dict String (List Classification))) : Members :=
  let sectors := instruments.entries.foldl (fun index e =>
    e.2.sector.elim index fun sector => Buckets.add index sectorDimension sector e.1) .empty
  dimensions.entries.foldl (fun index d => d.2.entries.foldl (fun index e =>
    (currentLabel e.2).elim index fun label => Buckets.add index d.1 label e.1) index) sectors

/-- The buckets without a member of `before`; a bucket it empties is dropped. -/
def unlabelled (labels : Labels String String) (assetId : String) :
    Option String → Labels String String
  | none => labels
  | some before =>
    match labels.get? before with
    | none => labels
    | some held =>
      if (held.get? assetId).isSome then
        if (held.delete assetId).entries ≠ [] then labels.set before (held.delete assetId)
        else labels.delete before
      else labels

/-- The buckets with a member more in `after`. -/
def labelled (labels : Labels String String) (assetId : String) :
    Option String → Labels String String
  | none => labels
  | some after => labels.set after (((labels.get? after).getD .empty).set assetId ())

/-- `_relabelled`: the members index with `asset_id` moved from bucket `before` to `after`. -/
def relabelled (members : Members) (dimension assetId : String) (before after : Option String) :
    Members :=
  if before = after then members
  else
    let labels := labelled (unlabelled ((members.get? dimension).getD .empty) assetId before)
      assetId after
    if labels.entries ≠ [] then members.set dimension labels else members.delete dimension

namespace InstrumentRegistry

variable {ρ : Type} (registry : InstrumentRegistry ρ)

def empty : InstrumentRegistry ρ where
  instruments := .empty
  byProvider := .empty
  classifications := .empty
  dated := .empty
  dimensions := .empty
  members := index (ρ := ρ) .empty .empty
  expiring := .empty
  margined := .empty
  recallable := .empty

def resolve (provider symbol : String) : Option String :=
  (registry.byProvider.get? provider).bind (·.get? symbol)

def datedWindows (provider symbol : String) : List (DatedAlias × String) :=
  ((registry.dated.get? provider).bind (·.get? symbol)).getD []

def resolveAt (provider symbol : String) (timestamp : Instant) : Option String :=
  match registry.resolve provider symbol with
  | some assetId => some assetId
  | none => ((registry.datedWindows provider symbol).find? fun w => w.1.Covers timestamp).map
    Prod.snd

def labelOf (assetId dimension : String) : Option String :=
  if dimension = sectorDimension then (registry.instruments.get? assetId).bind (·.sector)
  else ((registry.dimensions.get? dimension).bind (·.get? assetId)).bind currentLabel

def getInstrument (assetId : String) : Except RegistryRefusal (DeclaredInstrument ρ) :=
  (registry.instruments.get? assetId).elim (.error .input) .ok

def withAlias (text : TextRules) (provider symbol assetId : String) :
    Except RegistryRefusal (InstrumentRegistry ρ) := do
  require (text.strip provider ≠ "") .input
  require (text.strip symbol ≠ "") .input
  let symbols := (registry.byProvider.get? provider).getD .empty
  require (registry.datedWindows provider symbol = []) .registration
  require (∀ existing ∈ symbols.get? symbol, existing = assetId) .registration
  if symbols.get? symbol = some assetId then pure registry
  else pure { registry with
    byProvider := registry.byProvider.set provider (symbols.set symbol assetId) }

def withDatedAlias (alias_ : DatedAlias) (assetId : String) :
    Except RegistryRefusal (InstrumentRegistry ρ) := do
  require (registry.resolve alias_.provider alias_.symbol = none) .registration
  let windows := registry.datedWindows alias_.provider alias_.symbol
  if (alias_, assetId) ∈ windows then pure registry
  else do
    require (∀ held ∈ windows, ¬ held.1.Overlaps alias_) .registration
    let ordered := sortBy (fun w => w.1.start) (windows ++ [(alias_, assetId)])
    let symbols := (registry.dated.get? alias_.provider).getD .empty
    pure { registry with
      dated := registry.dated.set alias_.provider (symbols.set alias_.symbol ordered) }

def withRecord (record : DeclaredInstrument ρ) : InstrumentRegistry ρ :=
  { registry with
    instruments := registry.instruments.set record.assetId record
    members := relabelled registry.members sectorDimension record.assetId none record.sector
    expiring := record.lastTradeAt.elim registry.expiring (registry.expiring.set record.assetId)
    margined :=
      if record.margin = none then registry.margined else registry.margined.set record.assetId ()
    recallable :=
      if record.recalls then registry.recallable.set record.assetId () else registry.recallable }

end InstrumentRegistry

section
variable {ρ : Type} [DecidableEq ρ] (text : TextRules) (registry : InstrumentRegistry ρ)

def registerInstrument (record : DeclaredInstrument ρ) :
    Except RegistryRefusal (InstrumentRegistry ρ) := do
  let existing := registry.instruments.get? record.assetId
  require (∀ held ∈ existing, held.Agrees record) .registration
  let updated := if existing.isSome then registry else registry.withRecord record
  let updated ← record.aliases.entries.foldlM
    (fun r (e : String × String) => r.withAlias text e.1 e.2 record.assetId) updated
  record.datedAliases.foldlM (fun r alias_ => r.withDatedAlias alias_ record.assetId) updated

def registerAlias (assetId provider symbol : String) :
    Except RegistryRefusal (InstrumentRegistry ρ) := do
  let _ ← registry.getInstrument assetId
  registry.withAlias text provider symbol assetId

def registerDatedAlias (assetId : String) (alias_ : DatedAlias) :
    Except RegistryRefusal (InstrumentRegistry ρ) := do
  let _ ← registry.getInstrument assetId
  registry.withDatedAlias alias_ assetId

def classifyInstrument (assetId : String) (sector : Option String) (source : String)
    (asOf : Option Instant) : Except RegistryRefusal (InstrumentRegistry ρ) := do
  let record ← registry.getInstrument assetId
  let declaration ← Classification.of text sector source asOf
  let history := (registry.classifications.get? assetId).getD []
  if record.sector = declaration.label ∧ (history.getLast? = some declaration ∨
      declaration.label = none ∧ history = []) then pure registry
  else
    let updated := { registry with
      classifications := registry.classifications.set assetId (history ++ [declaration]) }
    if record.sector = declaration.label then pure updated
    else pure { updated with
      instruments := updated.instruments.set assetId { record with sector := declaration.label }
      members := relabelled updated.members sectorDimension assetId record.sector
        declaration.label }

def classifyDimension (assetId dimension : String) (label : Option String) (source : String)
    (asOf : Option Instant) : Except RegistryRefusal (InstrumentRegistry ρ) := do
  let _ ← registry.getInstrument assetId
  let name ← normalizeDimension text dimension
  require (name ≠ sectorDimension) .input
  let declaration ← Classification.of text label source asOf
  let histories := (registry.dimensions.get? name).getD .empty
  let history := (histories.get? assetId).getD []
  if history.getLast? = some declaration ∨ declaration.label = none ∧ history = [] then
    pure registry
  else pure { registry with
    dimensions := registry.dimensions.set name (histories.set assetId (history ++ [declaration]))
    members := relabelled registry.members name assetId (currentLabel history)
      declaration.label }

inductive RegistryCall (ρ : Type) where
  | registerInstrument (record : DeclaredInstrument ρ)
  | registerAlias (assetId provider symbol : String)
  | registerDatedAlias (assetId : String) (alias_ : DatedAlias)
  | classifyInstrument (assetId : String) (sector : Option String) (source : String)
      (asOf : Option Instant)
  | classifyDimension (assetId dimension : String) (label : Option String) (source : String)
      (asOf : Option Instant)

def RegistryCall.apply : RegistryCall ρ → Except RegistryRefusal (InstrumentRegistry ρ)
  | .registerInstrument record => AlphaLab.registerInstrument text registry record
  | .registerAlias assetId provider symbol =>
    AlphaLab.registerAlias text registry assetId provider symbol
  | .registerDatedAlias assetId alias_ => AlphaLab.registerDatedAlias registry assetId alias_
  | .classifyInstrument assetId sector source asOf =>
    AlphaLab.classifyInstrument text registry assetId sector source asOf
  | .classifyDimension assetId dimension label source asOf =>
    AlphaLab.classifyDimension text registry assetId dimension label source asOf

end

end AlphaLab
