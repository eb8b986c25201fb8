/-
  Typed readers of a JSON payload (`persistence/decode.py`) and the versions a
  subsystem has written (`persistence/upgrade.py`).

  * A `Json` value is what the serialized text reads back as.  The text `str`
    writes of a decimal is kept as the decimal it is read back to, and a mapping
    that no reader looks into as the `ρ` it stands for.
  * Each reader refuses a value of another type, naming the field.
-/
import AlphaLab.Lib.Dict
import AlphaLab.Lib.Runs
import Mathlib.Data.String.Basic

namespace AlphaLab

open Fallible

inductive Json (ρ : Type) where
  | null
  | bool (b : Bool)
  | int (n : ℤ)
  | float (x : ℚ)
  | str (text : String)
  | decimal (x : ℚ)
  | arr (items : List (Json ρ))
  | obj (fields : List (String × Json ρ))
  | mapping (m : ρ)

/-- `StateDecodeError`, with what its message names. -/
inductive DecodeError where
  | missing (key : String)
  | isNot (field what : String)
  | noMember (field enumeration name : String)
  | version (subsystem : String) (declared : ℤ)
  /-- `field` does not pass the check its value is built under. -/
  | invalid (field : String)
  /-- `pending_marks` must list held positions, each once and sorted. -/
  | pendingMarks (marks held : List String)

variable {ρ α β : Type}

/-! ## Readers -/

/-- `require`: the field's value, or a refusal that names it. -/
def requireField (payload : List (String × Json ρ)) (key : String) :
    Except DecodeError (Json ρ) :=
  orRefuse (Dict.getList key payload) (.missing key)

def asObject (value : Json ρ) (field : String) : Except DecodeError (List (String × Json ρ)) :=
  match value with
  | .obj fields => .ok fields
  | _ => .error (.isNot field "an object")

def asMapping (value : Json ρ) (field : String) : Except DecodeError ρ :=
  match value with
  | .mapping m => .ok m
  | _ => .error (.isNot field "an object")

def asSequence (value : Json ρ) (field : String) : Except DecodeError (List (Json ρ)) :=
  match value with
  | .arr items => .ok items
  | _ => .error (.isNot field "an array")

def asDecimal (value : Json ρ) (field : String) : Except DecodeError ℚ :=
  match value with
  | .decimal x => .ok x
  | .int n => .ok n
  | .float x => .ok x
  | _ => .error (.isNot field "a decimal")

def asFloat (value : Json ρ) (field : String) : Except DecodeError ℚ :=
  match value with
  | .float x => .ok x
  | .int n => .ok n
  | _ => .error (.isNot field "a number")

def asInt (value : Json ρ) (field : String) : Except DecodeError ℤ :=
  match value with
  | .int n => .ok n
  | _ => .error (.isNot field "an integer")

def asBool (value : Json ρ) (field : String) : Except DecodeError Bool :=
  match value with
  | .bool b => .ok b
  | _ => .error (.isNot field "a boolean")

def asStr (value : Json ρ) (field : String) : Except DecodeError String :=
  match value with
  | .str text => .ok text
  | _ => .error (.isNot field "a string")

/-- `null`, or what `read` reads. -/
def asOptional (read : Json ρ → String → Except DecodeError α) (value : Json ρ)
    (field : String) : Except DecodeError (Option α) :=
  match value with
  | .null => .ok none
  | value => some <$> read value field

/-- The member of an enumeration whose text is one of `members`. -/
def asEnum (enumeration : String) (members : List (String × α)) (value : Json ρ)
    (field : String) : Except DecodeError α := do
  let text ← asStr value field
  orRefuse (Dict.getList text members) (.noMember field enumeration text)

def asEntries (read : Json ρ → String → Except DecodeError α) (value : Json ρ)
    (field : String) : Except DecodeError (Dict String α) := do
  let fields ← asObject value field
  let entries ← fields.mapM fun e => do
    let item ← read e.2 (field ++ "[" ++ e.1 ++ "]")
    pure (e.1, item)
  pure (Dict.ofList entries)

def asDecimalMapping (value : Json ρ) (field : String) : Except DecodeError (Dict String ℚ) :=
  asEntries asDecimal value field

def readItems (read : Json ρ → ℕ → Except DecodeError α) (payload : List (String × Json ρ))
    (key : String) : Except DecodeError (List α) := do
  let value ← requireField payload key
  let items ← asSequence value key
  items.zipIdx.mapM fun e => read e.1 e.2

/-- One step of a schema history: a payload of `fromVersion` made one of the
    next version, or refused. -/
structure SchemaStep (ρ : Type) where
  fromVersion : ℤ
  upgrade : List (String × Json ρ) → Except DecodeError (List (String × Json ρ))

/-- Every version a subsystem has written, and how to read each. -/
structure SchemaHistory (ρ : Type) where
  subsystem : String
  current : ℤ
  firstVersion : ℤ := 1
  steps : List (SchemaStep ρ)
  covers : steps.map (·.fromVersion) = (List.range (current - firstVersion).toNat).map
    fun i => firstVersion + i

/-- The payload's `schema_version`. -/
def declaredVersion (payload : List (String × Json ρ)) (subsystem : String) :
    Except DecodeError ℤ := do
  let version ← requireField payload "schema_version"
  asInt version (subsystem ++ " snapshot schema_version")

/-- `SchemaHistory.upgrade`: the payload brought to the current version. -/
def SchemaHistory.upgrade (history : SchemaHistory ρ) (payload : List (String × Json ρ)) :
    Except DecodeError (List (String × Json ρ)) := do
  let version ← declaredVersion payload history.subsystem
  if version = history.current then pure payload
  else do
    require (history.firstVersion ≤ version ∧ version < history.current)
      (.version history.subsystem version)
    (history.steps.drop (version - history.firstVersion).toNat).foldlM
      (fun data step => do
        let data ← step.upgrade data
        pure (Dict.setList "schema_version" (.int (step.fromVersion + 1)) data)) payload

/-! ## What is read back -/

@[simp] theorem requireField_cons_self (k : String) (v : Json ρ) (l : List (String × Json ρ)) :
    requireField ((k, v) :: l) k = .ok v := by
  simp [requireField, Dict.getList, orRefuse]

theorem requireField_cons_ne {a k : String} (v : Json ρ) (l : List (String × Json ρ))
    (h : a ≠ k) : requireField ((a, v) :: l) k = requireField l k := by
  simp [requireField, Dict.getList, h]

variable {payload : List (String × Json ρ)}

theorem SchemaHistory.upgrade_current {history : SchemaHistory ρ}
    (h : requireField payload "schema_version" = .ok (.int history.current)) :
    history.upgrade payload = .ok payload := by
  simp [upgrade, declaredVersion, h, asInt, bind, Except.bind, pure, Except.pure]

variable {l : List α} {g : α → β}

theorem mapM_read {f : α → Except DecodeError β} (h : ∀ a ∈ l, f a = .ok (g a)) :
    l.mapM f = .ok (l.map g) := by
  induction l with
  | nil => rfl
  | cons a l ih =>
    rw [List.mapM_cons, h a (by simp), ih fun b hb => h b (by simp [hb])]
    rfl

variable {toJson : α → Json ρ}

theorem mapM_zipIdx {read : Json ρ → ℕ → Except DecodeError β}
    (h : ∀ a ∈ l, ∀ i, read (toJson a) i = .ok (g a)) (i : ℕ) :
    ((l.map toJson).zipIdx i).mapM (fun e => read e.1 e.2) = .ok (l.map g) := by
  induction l generalizing i with
  | nil => rfl
  | cons a l ih =>
    rw [List.map_cons, List.zipIdx_cons, List.mapM_cons, h a (by simp),
      ih fun b hb => h b (by simp [hb])]
    rfl

variable {w : α → Json ρ}

theorem readItems_map {r : Json ρ → ℕ → Except DecodeError β} {key : String}
    (hkey : requireField payload key = .ok (.arr (l.map w)))
    (h : ∀ a ∈ l, ∀ i, r (w a) i = .ok (g a)) : readItems r payload key = .ok (l.map g) := by
  rw [readItems, hkey]
  exact mapM_zipIdx h 0

def entriesToJson (toJson : α → Json ρ) (d : Dict String α) : Json ρ :=
  .obj (d.sorted.entries.map fun e => (e.1, toJson e.2))

theorem asEntries_toJson {read : Json ρ → String → Except DecodeError α}
    (h : ∀ a field, read (toJson a) field = .ok a) (d : Dict String α) (field : String) :
    asEntries read (entriesToJson toJson d) field = .ok d.sorted := by
  have hmap : (d.sorted.entries.map fun e => (e.1, toJson e.2)).mapM (fun e => do
      let item ← read e.2 (field ++ "[" ++ e.1 ++ "]")
      pure (e.1, item)) = .ok d.sorted.entries := by
    rw [List.mapM_map]
    conv_rhs => rw [← List.map_id d.sorted.entries]
    refine mapM_read fun e _ => ?_
    simp [h, bind, Except.bind, pure, Except.pure]
  rw [asEntries, entriesToJson, asObject]
  simp only [bind, Except.bind] at hmap ⊢
  rw [hmap]
  exact congrArg Except.ok (Dict.ofList_entries _)

theorem asDecimalMapping_toJson (d : Dict String ℚ) (field : String) :
    asDecimalMapping (entriesToJson (.decimal : ℚ → Json ρ) d) field = .ok d.sorted :=
  asEntries_toJson (fun _ _ => rfl) d field

/-- `null`, or what is written of a value. -/
def optionToJson (toJson : α → Json ρ) : Option α → Json ρ
  | none => .null
  | some a => toJson a

theorem asOptional_toJson {r : Json ρ → String → Except DecodeError α}
    (h : ∀ a field, r (w a) field = .ok a) (hnull : ∀ a, w a ≠ .null) (o : Option α)
    (field : String) : asOptional r (optionToJson w o) field = .ok o := by
  cases o with
  | none => rfl
  | some a =>
    rw [optionToJson, asOptional, h]
    · rfl
    · exact hnull a

end AlphaLab
