/-
  Decimals, minor units and money (`common/arithmetic.py`,
  `common/currency_units.py`, `portfolio/money.py`).

  * A `Decimal` is the rational number it denotes: its exponent and the sign of
    its zero are not kept, `NaN` and the infinities are not values.  Products
    and quotients round in the pinned context (34 significant digits, half to
    even: `multiply`, `divide`, `subtract`), and so does the total of the
    reservation ledger; other running sums of amounts and of quantities are
    exact, that is, taken to fit the context's digits.
  * `CurrencyUnits` is the minor unit of every currency: ISO 4217 and the
    declared ones.  `toMoney` rounds an amount half even to it, `notional` is
    the money value of a trade.
  * `Whole n x` says that `x` is a whole number of minor units of `n`
    decimals; the money lemmas are those of the grid (`whole_money`, …).
-/
import AlphaLab.Lib.Dict
import AlphaLab.Lib.Rounding

namespace AlphaLab

open Rounding

abbrev Decimal := ℚ

abbrev Instant := ℚ

theorem one_positive : (0 : Decimal) < 1 := by norm_num

/-! ## The accounting context -/

def accountingPrecision : ℕ := 34

/-- `x` as the accounting context rounds the result of an operation. -/
def inContext (x : Decimal) : Decimal := roundSig 10 accountingPrecision x

def multiply (x y : Decimal) : Decimal := inContext (x * y)

def divide (x y : Decimal) : Decimal := inContext (x / y)

def add (x y : Decimal) : Decimal := inContext (x + y)

def subtract (x y : Decimal) : Decimal := inContext (x - y)

/-- `to_integral_value(rounding=ROUND_DOWN)`: the integral part, towards zero. -/
def roundDown (x : Decimal) : Decimal := if 0 ≤ x then (⌊x⌋ : ℚ) else (⌈x⌉ : ℚ)

@[simp] theorem inContext_zero : inContext 0 = 0 := roundSig_zero

variable {x : Decimal}

theorem inContext_pos (h : 0 < x) : 0 < inContext x :=
  roundSig_pos (by decide) (by decide) h

theorem inContext_neg (h : x < 0) : inContext x < 0 :=
  roundSig_neg (by decide) (by decide) h

theorem inContext_eq_zero : inContext x = 0 ↔ x = 0 := by
  constructor
  · intro h
    rcases lt_trichotomy x 0 with hx | hx | hx
    · exact absurd h (inContext_neg hx).ne
    · exact hx
    · exact absurd h (inContext_pos hx).ne'
  · rintro rfl
    exact inContext_zero

theorem inContext_nonneg (h : 0 ≤ x) : 0 ≤ inContext x := by
  rcases h.lt_or_eq with hx | rfl
  · exact (inContext_pos hx).le
  · rw [inContext_zero]

variable {y : Decimal}

theorem multiply_nonneg (hx : 0 ≤ x) (hy : 0 ≤ y) : 0 ≤ multiply x y :=
  inContext_nonneg (mul_nonneg hx hy)

@[simp] theorem multiply_zero (x : Decimal) : multiply x 0 = 0 := by simp [multiply]
@[simp] theorem zero_multiply (x : Decimal) : multiply 0 x = 0 := by simp [multiply]

/-- `x` needs no more digits than the accounting context has. -/
def Exact (x : Decimal) : Prop := inContext x = x

instance (x : Decimal) : Decidable (Exact x) := inferInstanceAs (Decidable (inContext x = x))

/-! ## Minor units -/

/-- `MAX_MINOR_UNITS`: the most decimals a currency may carry. -/
def maxMinorUnits : ℕ := 18

def isoTwo : List String :=
  ["AED", "AFN", "ALL", "AMD", "ANG", "AOA", "ARS", "AUD", "AWG", "AZN", "BAM", "BBD",
   "BDT", "BGN", "BMD", "BND", "BOB", "BOV", "BRL", "BSD", "BTN", "BWP", "BYN", "BZD",
   "CAD", "CDF", "CHE", "CHF", "CHW", "CNY", "COP", "COU", "CRC", "CUC", "CUP", "CVE",
   "CZK", "DKK", "DOP", "DZD", "EGP", "ERN", "ETB", "EUR", "FJD", "FKP", "GBP", "GEL",
   "GHS", "GIP", "GMD", "GTQ", "GYD", "HKD", "HNL", "HRK", "HTG", "HUF", "IDR", "ILS",
   "INR", "IRR", "JMD", "KES", "KGS", "KHR", "KPW", "KYD", "KZT", "LAK", "LBP", "LKR",
   "LRD", "LSL", "MAD", "MDL", "MGA", "MKD", "MMK", "MNT", "MOP", "MRU", "MUR", "MVR",
   "MWK", "MXN", "MXV", "MYR", "MZN", "NAD", "NGN", "NIO", "NOK", "NPR", "NZD", "PAB",
   "PEN", "PGK", "PHP", "PKR", "PLN", "QAR", "RON", "RSD", "RUB", "SAR", "SBD", "SCR",
   "SDG", "SEK", "SGD", "SHP", "SLE", "SLL", "SOS", "SRD", "SSP", "STN", "SVC", "SYP",
   "SZL", "THB", "TJS", "TMT", "TOP", "TRY", "TTD", "TWD", "TZS", "UAH", "USD", "USN",
   "UYU", "UZS", "VED", "VES", "WST", "XCD", "XCG", "YER", "ZAR", "ZMW", "ZWG", "ZWL"]

def isoZero : List String :=
  ["BIF", "CLP", "DJF", "GNF", "ISK", "JPY", "KMF", "KRW", "PYG", "RWF", "UGX", "UYI",
   "VND", "VUV", "XAF", "XOF", "XPF"]

/-- `ISO_4217_MINOR_UNITS`: the decimal places of a standard currency. -/
def iso4217MinorUnits (currency : String) : Option ℕ :=
  if currency ∈ isoTwo then some 2
  else if currency ∈ isoZero then some 0
  else if currency ∈ ["BHD", "IQD", "JOD", "KWD", "LYD", "OMR", "TND"] then some 3
  else if currency ∈ ["CLF", "UYW"] then some 4
  else none

variable {currency : String} {n : ℕ}

theorem iso4217MinorUnits_le (h : iso4217MinorUnits currency = some n) : n ≤ maxMinorUnits := by
  simp only [iso4217MinorUnits] at h
  split_ifs at h <;> · injection h with h; subst h; decide

/-- The minor units in force: ISO 4217, and the currencies a caller declares,
    within bounds and not contradicting it. -/
structure CurrencyUnits where
  declared : Dict String ℕ
  bounded : ∀ currency n, declared.get? currency = some n → n ≤ maxMinorUnits
  standard : ∀ currency n m, declared.get? currency = some n →
    iso4217MinorUnits currency = some m → n = m

/-- `STANDARD_CURRENCY_UNITS`: ISO 4217 and nothing declared. -/
def standardCurrencyUnits : CurrencyUnits where
  declared := Dict.empty
  bounded := by simp
  standard := by simp

instance : DecidableEq CurrencyUnits := fun a b =>
  decidable_of_iff (a.declared = b.declared) (by cases a; cases b; simp)

/-- The decimal places of `currency`'s minor unit, or `none` where
    `minor_units` raises `UnknownCurrencyUnitsError`. -/
def CurrencyUnits.minorUnits (units : CurrencyUnits) (currency : String) : Option ℕ :=
  match units.declared.get? currency with
  | some n => some n
  | none => iso4217MinorUnits currency

theorem CurrencyUnits.minorUnits_le {units : CurrencyUnits} (h : units.minorUnits currency = some n) :
    n ≤ maxMinorUnits := by
  simp only [minorUnits] at h
  cases hd : units.declared.get? currency with
  | some m =>
    rw [hd] at h
    exact Option.some.inj h ▸ units.bounded currency m hd
  | none =>
    rw [hd] at h
    exact iso4217MinorUnits_le h

/-! ## Money -/

/-- `MINOR_UNIT_QUANTA`: the minor unit of `n` decimals. -/
def quantum (n : ℕ) : Decimal := (10 ^ n)⁻¹

/-- `amount` rounded half even to a minor unit of `n` decimals. -/
def quantize (n : ℕ) (amount : Decimal) : Decimal := roundTo (quantum n) amount

/-- `amount` is a whole number of minor units of `n` decimals. -/
def Whole (n : ℕ) (amount : Decimal) : Prop := OnGrid (quantum n) amount

instance (n : ℕ) (amount : Decimal) : Decidable (Whole n amount) :=
  inferInstanceAs (Decidable (OnGrid (quantum n) amount))

/-- `to_money`: `amount` rounded to `currency`'s minor unit, or `none` where
    the unit is unknown. -/
def toMoney (units : CurrencyUnits) (amount : Decimal) (currency : String) : Option Decimal :=
  (units.minorUnits currency).map (quantize · amount)

/-- `notional`: the money value of `|quantity|` units at `price`. -/
def notional (units : CurrencyUnits) (quantity price : Decimal) (currency : String) :
    Option Decimal :=
  toMoney units (multiply |quantity| price) currency

theorem quantum_pos (n : ℕ) : 0 < quantum n := by unfold quantum; positivity

@[simp] theorem quantize_zero (n : ℕ) : quantize n 0 = 0 := roundTo_zero _

theorem whole_quantize (n : ℕ) (amount : Decimal) : Whole n (quantize n amount) :=
  onGrid_roundTo _ _

theorem quantize_of_whole {amount : Decimal} (h : Whole n amount) :
    quantize n amount = amount :=
  roundTo_of_onGrid (quantum_pos n).ne' h

theorem whole_zero (n : ℕ) : Whole n 0 := onGrid_zero _

theorem Whole.add : Whole n x → Whole n y → Whole n (x + y) := OnGrid.add
theorem Whole.sub : Whole n x → Whole n y → Whole n (x - y) := OnGrid.sub
theorem Whole.neg : Whole n x → Whole n (-x) := OnGrid.neg

theorem quantum_zpow (n : ℕ) : quantum n = ((10 : ℕ) : ℚ) ^ (-(n : ℤ)) := by
  rw [quantum, zpow_neg, zpow_natCast]
  norm_num

theorem whole_inContext (h : Whole n x) : Whole n (inContext x) := by
  unfold Whole at h ⊢
  rw [quantum_zpow] at h ⊢
  exact onGrid_roundSig (by decide) h

theorem toMoney_eq_some {units : CurrencyUnits} {amount money : Decimal} :
    toMoney units amount currency = some money ↔
      ∃ n, units.minorUnits currency = some n ∧ money = quantize n amount := by
  simp only [toMoney, Option.map_eq_some_iff]
  exact exists_congr fun n => and_congr_right fun _ => eq_comm

/-- A split amount derived by subtracting is exact: a whole and its rounded
    part leave a whole rest. -/
example : quantize 2 (multiply 100.01 0.5) = 50 ∧ Whole 2 (100.01 - 50) := by decide +kernel

end AlphaLab
