/-
  Reference bands rounded inward to a price grid (`instrument/controls.py`).

  * `ReferenceBand.band` is the band a reference gives, and `DeclaredControls.band` the one in force.
  * `roundsInward_iff`: where the context has the digits, a band is its exact band rounded inward
    iff the tick at each edge goes on to the grid beyond its tier, and an edge at zero leaves the
    other on the grid.
-/
import AlphaLab.Instrument.Ticks
import Mathlib.Data.List.TakeWhile

namespace AlphaLab

open Rounding Fallible

/-! ## Bands -/

inductive BandAction where
  | refuse | cap

inductive BandError where
  | tick (e : TickError)
  | endsBeforeStart
  | limitsCross

structure PriceBand where
  assetId : String
  start : Instant
  «end» : Option Instant
  lower : Decimal
  upper : Decimal
  beyond : BandAction
  lasts : ∀ until_ ∈ «end», start < until_
  limits : lower < upper

def PriceBand.of (assetId : String) (start : Instant) («end» : Option Instant)
    (lower upper : Decimal) (beyond : BandAction) : Except BandError PriceBand :=
  if hlasts : ∀ until_ ∈ «end», start < until_ then
    if hlimits : lower < upper then .ok ⟨assetId, start, «end», lower, upper, beyond, hlasts, hlimits⟩
    else .error .limitsCross
  else .error .endsBeforeStart

def PriceBand.InForce (band : PriceBand) (at_ : Instant) : Prop :=
  band.start ≤ at_ ∧ ∀ until_ ∈ band.end, at_ < until_

instance (band : PriceBand) (at_ : Instant) : Decidable (band.InForce at_) :=
  inferInstanceAs (Decidable (_ ∧ _))

structure BandReference where
  assetId : String
  effectiveAt : Instant
  price : Decimal
  positive : 0 < price := by norm_num

/-- The width of a band below and above its reference: as rates of it, or as amounts. -/
inductive BandWidths where
  | rates (lower upper : Decimal)
  | offsets (lower upper : Decimal)

/-- Rates are between zero and one, amounts above zero. -/
def BandWidths.Valid : BandWidths → Prop
  | rates lower upper => (0 < lower ∧ lower < 1) ∧ 0 < upper ∧ upper < 1
  | offsets lower upper => 0 < lower ∧ 0 < upper

structure ReferenceBand where
  assetId : String
  start : Instant
  «end» : Option Instant
  beyond : BandAction
  widths : BandWidths
  staleAfter : Option Instant := none
  lasts : ∀ until_ ∈ «end», start < until_ := by simp
  valid : widths.Valid

namespace ReferenceBand

variable (rule : ReferenceBand) (caller : Rounding.Context 10 Decimal)

def InForce (at_ : Instant) : Prop := rule.start ≤ at_ ∧ ∀ until_ ∈ rule.end, at_ < until_

instance (at_ : Instant) : Decidable (rule.InForce at_) := inferInstanceAs (Decidable (_ ∧ _))

def edges (price : Decimal) : Decimal × Decimal :=
  match rule.widths with
  | .rates lower upper => (caller.round (price * caller.round (1 - lower)),
      caller.round (price * caller.round (1 + upper)))
  | .offsets lower upper => (caller.round (price - lower), caller.round (price + upper))

def roundedEdges (edges : Decimal × Decimal) (schedule : TickSchedule) :
    Except TickError (Decimal × Decimal) := do
  let lowerTick ← schedule.tickSizeAt edges.1
  let lower ← roundToTick caller edges.1 lowerTick .up
  let upperTick ← schedule.tickSizeAt edges.2
  let upper ← roundToTick caller edges.2 upperTick .down
  pure (lower, upper)

def band (reference : BandReference) (tick : Option TickSchedule) : Except BandError PriceBand := do
  let edges := rule.edges caller reference.price
  let (lower, upper) ← match tick with
    | none => .ok edges
    | some schedule =>
      if 0 < edges.1 then (roundedEdges caller edges schedule).mapError .tick else .ok edges
  PriceBand.of rule.assetId (max rule.start reference.effectiveAt) rule.end lower upper rule.beyond

end ReferenceBand

/-- `TradingControls`, as far as its bands: those declared, the references and the band rules, each
    in order. -/
structure DeclaredControls where
  bands : List PriceBand := []
  references : List BandReference := []
  rules : List ReferenceBand := []

namespace DeclaredControls

variable (controls : DeclaredControls)

/-- `reference`: the latest in effect. -/
def reference (assetId : String) (at_ : Instant) : Option BandReference :=
  ((controls.references.filter fun r => r.assetId = assetId).takeWhile fun r =>
    r.effectiveAt ≤ at_).getLast?

def currentReference (assetId : String) (at_ : Instant) (rule : ReferenceBand) :
    Option BandReference :=
  (controls.reference assetId at_).filter fun r =>
    rule.staleAfter.all fun stale => at_ - r.effectiveAt ≤ stale

def rule (assetId : String) (at_ : Instant) : Option ReferenceBand :=
  controls.rules.find? fun r => r.assetId = assetId ∧ r.InForce at_

def band (caller : Rounding.Context 10 Decimal) (assetId : String) (at_ : Instant)
    (tick : Option TickSchedule) : Except BandError (Option PriceBand) :=
  match controls.bands.find? fun b => b.assetId = assetId ∧ b.InForce at_ with
  | some band => .ok (some band)
  | none =>
    match controls.rule assetId at_ with
    | none => .ok none
    | some rule =>
      match controls.currentReference assetId at_ rule with
      | none => .ok none
      | some reference => some <$> rule.band caller reference tick

end DeclaredControls

/-! ## Rounded inward -/

namespace ReferenceBand

variable (rule : ReferenceBand) (caller : Rounding.Context 10 Decimal) (reference : BandReference)
  (schedule : TickSchedule)

def lowest (price : Decimal) : Decimal :=
  match rule.widths with
  | .rates lower _ => price * (1 - lower)
  | .offsets lower _ => price - lower

def highest (price : Decimal) : Decimal :=
  match rule.widths with
  | .rates _ upper => price * (1 + upper)
  | .offsets _ upper => price + upper

/-- At least two prices of the grid are inside the exact band. -/
def TwoPrices : Prop := ∃ p q, p < q ∧ schedule.OnTick p ∧ schedule.OnTick q ∧
  rule.lowest reference.price ≤ p ∧ q ≤ rule.highest reference.price

/-- **The band is the exact band rounded inward**, or fewer than two prices are inside. -/
def RoundsInward : Prop :=
  (∃ band, rule.band caller reference (some schedule) = .ok band ∧ band.lower < band.upper ∧
    schedule.OnTick band.lower ∧ schedule.OnTick band.upper ∧
    rule.lowest reference.price ≤ band.lower ∧ band.upper ≤ rule.highest reference.price ∧
    ∀ p, schedule.OnTick p → rule.lowest reference.price ≤ p → p ≤ rule.highest reference.price →
      band.lower ≤ p ∧ p ≤ band.upper) ∨
  ¬ rule.TwoPrices reference schedule

/-- The grid meets at the tiers of the edges: above zero the tick at each goes on; at zero the
    upper edge is on the grid. -/
def MeetsTiers : Prop :=
  ¬ rule.TwoPrices reference schedule ∨ (∀ until_ ∈ rule.end, reference.effectiveAt < until_) ∧
    (0 < rule.lowest reference.price → schedule.GoesOn (rule.lowest reference.price) ∧
      schedule.GoesBack (rule.highest reference.price)) ∧
    (rule.lowest reference.price ≤ 0 → rule.lowest reference.price = 0 ∧
      schedule.OnTick (rule.highest reference.price))

def EdgeFits (place : ℤ) (edge : Decimal) : Prop :=
  OnGrid (((10 : ℕ) : ℚ) ^ place) edge ∧ OnGrid (((10 : ℕ) : ℚ) ^ place) (schedule.tick edge) ∧
    (|edge| + schedule.tick edge) * caller.error < ((10 : ℕ) : ℚ) ^ place

/-- The context has the digits to compute the edges and to count their ticks. -/
structure Fits (place : ℤ) : Prop where
  rates : match rule.widths with
    | .rates lower upper => OnGrid (((10 : ℕ) : ℚ) ^ (1 - caller.digits : ℤ)) lower ∧
        OnGrid (((10 : ℕ) : ℚ) ^ (1 - caller.digits : ℤ)) upper
    | .offsets _ _ => True
  lowest : EdgeFits caller schedule place (rule.lowest reference.price)
  highest : EdgeFits caller schedule place (rule.highest reference.price)

end ReferenceBand

section
variable {rule : ReferenceBand} {caller : Rounding.Context 10 Decimal} {reference : BandReference}
  {schedule : TickSchedule} {place : ℤ} {edge : Decimal}

theorem ReferenceBand.EdgeFits.small (h : ReferenceBand.EdgeFits caller schedule place edge) :
    |edge| + schedule.tick edge < ((10 : ℕ) : ℚ) ^ (place + caller.digits) := by
  have hten : ((10 : ℕ) : ℚ) ≠ 0 := by norm_num
  have hdigits : (0 : ℚ) < ((10 : ℕ) : ℚ) ^ (caller.digits : ℤ) := by positivity
  have herror : caller.error * ((10 : ℕ) : ℚ) ^ (caller.digits : ℤ) = 10 := by
    rw [Context.error, ← zpow_add₀ hten]
    norm_num
  have hscaled := mul_lt_mul_of_pos_right h.2.2 hdigits
  rw [mul_assoc, herror, ← zpow_add₀ hten] at hscaled
  have hnonneg : 0 ≤ |edge| + schedule.tick edge :=
    add_nonneg (abs_nonneg _) (schedule.tick_pos edge).le
  linarith

theorem ReferenceBand.EdgeFits.exact (h : ReferenceBand.EdgeFits caller schedule place edge) :
    caller.round edge = edge :=
  caller.exact h.1 (lt_of_le_of_lt (le_add_of_nonneg_right (schedule.tick_pos edge).le) h.small)

theorem roundToTick_fits (h : ReferenceBand.EdgeFits caller schedule place edge)
    (hedge : 0 ≤ edge) :
    roundToTick caller edge (schedule.tick edge) .up = .ok (schedule.roundUp edge) ∧
      roundToTick caller edge (schedule.tick edge) .down = .ok (schedule.roundDown edge) := by
  obtain ⟨hgrid, htick, hsmall⟩ := h
  have hpos := schedule.tick_pos edge
  have hunit : (0 : ℚ) < ((10 : ℕ) : ℚ) ^ place := by positivity
  have hfits := ReferenceBand.EdgeFits.small ⟨hgrid, htick, hsmall⟩
  rw [abs_of_nonneg hedge] at hsmall hfits
  obtain ⟨hfloor, hceil⟩ := Context.floor_round_div (by decide) hunit hedge hpos hgrid htick hsmall
  have hdigits := Context.div_add_one_lt (by decide) hunit hpos htick hsmall
  have hquotient : 0 ≤ edge / schedule.tick edge := div_nonneg hedge hpos.le
  have hsteps : ∀ steps : ℤ, 0 ≤ steps → (steps : ℚ) ≤ edge / schedule.tick edge + 1 →
      |(steps : ℚ)| < 10 ^ caller.digits ∧
        caller.round (steps * schedule.tick edge) = steps * schedule.tick edge := by
    intro steps hsteps hle
    have hsteps : (0 : ℚ) ≤ steps := by exact_mod_cast hsteps
    refine ⟨?_, caller.exact (m := place) (htick.int_mul steps) ?_⟩
    · rw [abs_of_nonneg hsteps]
      exact_mod_cast hle.trans_lt hdigits
    · rw [abs_of_nonneg (mul_nonneg hsteps hpos.le)]
      have hproduct := mul_le_mul_of_nonneg_right hle hpos.le
      rw [add_mul, div_mul_cancel₀ _ hpos.ne', one_mul] at hproduct
      exact hproduct.trans_lt hfits
  constructor
  · obtain ⟨hcount, hexact⟩ := hsteps ⌈edge / schedule.tick edge⌉ (Int.ceil_nonneg hquotient)
      (Int.ceil_lt_add_one _).le
    unfold roundToTick
    simp only [hceil, hexact]
    exact bind_ok.mpr ⟨(), require_ok.mpr hcount, rfl⟩
  · have hdown : (⌊edge / schedule.tick edge⌋ : ℚ) ≤ edge / schedule.tick edge := Int.floor_le _
    obtain ⟨hcount, hexact⟩ := hsteps ⌊edge / schedule.tick edge⌋ (Int.floor_nonneg.mpr hquotient)
      (by linarith)
    unfold roundToTick
    simp only [hfloor, hexact]
    exact bind_ok.mpr ⟨(), require_ok.mpr hcount, rfl⟩

theorem ReferenceBand.Fits.edges_eq (h : rule.Fits caller reference schedule place) :
    rule.edges caller reference.price =
      (rule.lowest reference.price, rule.highest reference.price) := by
  have hlow := h.lowest.exact
  have hhigh := h.highest.exact
  have hrates := h.rates
  have hvalid := rule.valid
  unfold ReferenceBand.lowest at hlow ⊢
  unfold ReferenceBand.highest at hhigh ⊢
  unfold ReferenceBand.edges
  cases hwidths : rule.widths with
  | rates lower upper =>
    rw [hwidths] at hlow hhigh hrates hvalid
    obtain ⟨⟨hlower, hlower1⟩, hupper, hupper1⟩ := hvalid
    have hone : OnGrid (((10 : ℕ) : ℚ) ^ (1 - caller.digits : ℤ)) (1 : ℚ) := by
      have hgrid := onGrid_zpow (K := ℚ) (b := 10) (by norm_num)
        (by have := caller.digits_pos; omega : (1 - caller.digits : ℤ) ≤ 0)
      rwa [zpow_zero] at hgrid
    have hten : ((10 : ℕ) : ℚ) ^ (1 - caller.digits + caller.digits : ℤ) = 10 := by norm_num
    have hdown : caller.round (1 - lower) = 1 - lower := by
      refine caller.exact (hone.sub hrates.1) ?_
      rw [hten, abs_of_nonneg (by linarith)]
      linarith
    have hup : caller.round (1 + upper) = 1 + upper := by
      refine caller.exact (hone.add hrates.2) ?_
      rw [hten, abs_of_nonneg (by linarith)]
      linarith
    simp only [hdown, hup]
    exact Prod.ext hlow hhigh
  | offsets lower upper =>
    rw [hwidths] at hlow hhigh
    exact Prod.ext hlow hhigh

theorem ReferenceBand.lowest_lt_highest (rule : ReferenceBand) (reference : BandReference) :
    rule.lowest reference.price < rule.highest reference.price ∧
      0 < rule.highest reference.price := by
  have hprice := reference.positive
  have hvalid := rule.valid
  unfold ReferenceBand.lowest ReferenceBand.highest
  cases hwidths : rule.widths with
  | rates lower upper =>
    rw [hwidths] at hvalid
    obtain ⟨⟨hlower, -⟩, hupper, -⟩ := hvalid
    refine ⟨mul_lt_mul_of_pos_left (by linarith) hprice, mul_pos hprice (by linarith)⟩
  | offsets lower upper =>
    rw [hwidths] at hvalid
    obtain ⟨hlower, hupper⟩ := hvalid
    exact ⟨by simp only; linarith, by simp only; linarith⟩

variable {assetId : String} {start : Instant} {«end» : Option Instant} {lower upper : Decimal}

theorem PriceBand.of_ok {beyond : BandAction} {band : PriceBand}
    (h : PriceBand.of assetId start «end» lower upper beyond = .ok band) :
    (∀ until_ ∈ «end», start < until_) ∧ band.lower = lower ∧ band.upper = upper := by
  unfold PriceBand.of at h
  split_ifs at h with hlasts hlimits
  obtain rfl := ok_inj.mp h
  exact ⟨hlasts, rfl, rfl⟩

theorem PriceBand.exists_of (assetId : String) (beyond : BandAction)
    (hlasts : ∀ until_ ∈ «end», start < until_) (hlimits : lower < upper) :
    ∃ band, PriceBand.of assetId start «end» lower upper beyond = .ok band ∧
      band.lower = lower ∧ band.upper = upper := by
  refine ⟨⟨assetId, start, «end», lower, upper, beyond, hlasts, hlimits⟩, ?_, rfl, rfl⟩
  rw [PriceBand.of, dif_pos hlasts, dif_pos hlimits]

/-- **The band a reference gives**, where the context has the digits. -/
theorem ReferenceBand.Fits.band_eq (h : rule.Fits caller reference schedule place) :
    rule.band caller reference (some schedule) =
      if 0 < rule.lowest reference.price then
        PriceBand.of rule.assetId (max rule.start reference.effectiveAt) rule.end
          (schedule.roundUp (rule.lowest reference.price))
          (schedule.roundDown (rule.highest reference.price)) rule.beyond
      else PriceBand.of rule.assetId (max rule.start reference.effectiveAt) rule.end
        (rule.lowest reference.price) (rule.highest reference.price) rule.beyond := by
  obtain ⟨-, hhighest⟩ := rule.lowest_lt_highest reference
  unfold ReferenceBand.band
  simp only [h.edges_eq]
  split_ifs with hlow
  · have hup := (roundToTick_fits h.lowest hlow.le).1
    have hdown := (roundToTick_fits h.highest hhighest.le).2
    have hrounded : ReferenceBand.roundedEdges caller
        (rule.lowest reference.price, rule.highest reference.price) schedule =
        .ok (schedule.roundUp (rule.lowest reference.price),
          schedule.roundDown (rule.highest reference.price)) := by
      refine bind_ok.mpr ⟨_, if_neg (not_lt.mpr hlow.le), bind_ok.mpr ⟨_, hup, ?_⟩⟩
      exact bind_ok.mpr ⟨_, if_neg (not_lt.mpr hhighest.le), bind_ok.mpr ⟨_, hdown, rfl⟩⟩
    rw [hrounded]
    rfl
  · rfl

theorem ReferenceBand.lasts_iff : (∀ until_ ∈ rule.end, max rule.start reference.effectiveAt < until_) ↔
    ∀ until_ ∈ rule.end, reference.effectiveAt < until_ := by
  constructor
  · exact fun h until_ huntil => (le_max_right _ _).trans_lt (h until_ huntil)
  · exact fun h until_ huntil => max_lt (rule.lasts until_ huntil) (h until_ huntil)

/-- Edges that are the outermost prices inside are in order. -/
theorem ReferenceBand.TwoPrices.lt (h : rule.TwoPrices reference schedule) (hlower : ∀ p,
      schedule.OnTick p → rule.lowest reference.price ≤ p → p ≤ rule.highest reference.price → lower
      ≤ p) (hupper : ∀ p, schedule.OnTick p → rule.lowest reference.price ≤ p → p ≤ rule.highest
      reference.price → p ≤ upper) : lower < upper := by
  obtain ⟨p, q, hpq, hp, hq, hlow, hhigh⟩ := h
  exact (hlower p hp hlow (hpq.le.trans hhigh)).trans_lt
    (hpq.trans_le (hupper q hq (hlow.trans hpq.le) hhigh))

/-- **A band is its exact band rounded inward** iff the grid meets at the tiers of its edges. -/
theorem roundsInward_iff (hfits : rule.Fits caller reference schedule place) :
    rule.RoundsInward caller reference schedule ↔ rule.MeetsTiers reference schedule := by
  by_cases htwo : rule.TwoPrices reference schedule
  swap
  · exact iff_of_true (Or.inr htwo) (Or.inl htwo)
  obtain ⟨-, hhighest⟩ := rule.lowest_lt_highest reference
  have hgiven := hfits.band_eq
  have hsome : ∃ p, schedule.OnTick p ∧ rule.lowest reference.price ≤ p ∧
      p ≤ rule.highest reference.price := by
    obtain ⟨p, q, hpq, hp, -, hlow, hhigh⟩ := htwo
    exact ⟨p, hp, hlow, hpq.le.trans hhigh⟩
  have hback := goesBack_iff hhighest.le hsome
  unfold ReferenceBand.RoundsInward ReferenceBand.MeetsTiers
  rw [or_iff_left (not_not.mpr htwo), or_iff_right (not_not.mpr htwo)]
  by_cases hlow : 0 < rule.lowest reference.price
  · have hon := goesOn_iff hlow.le hsome
    rw [if_pos hlow] at hgiven
    constructor
    · rintro ⟨band, hband, -, hlower, hupper, -, -, hall⟩
      obtain ⟨hlasts, hlowerEq, hupperEq⟩ := PriceBand.of_ok (hgiven.symm.trans hband)
      rw [hlowerEq] at hlower hall
      rw [hupperEq] at hupper hall
      refine ⟨ReferenceBand.lasts_iff.mp hlasts, fun _ => ⟨hon.mpr ⟨hlower, ?_⟩, hback.mpr ⟨hupper, ?_⟩⟩,
        fun hzero => absurd hlow (not_lt.mpr hzero)⟩
      · exact fun p hp hle hge => (hall p hp hle hge).1
      · exact fun p hp hle hge => (hall p hp hle hge).2
    · rintro ⟨hlasts, htiers, -⟩
      obtain ⟨hlower, hlowerAll⟩ := hon.mp (htiers hlow).1
      obtain ⟨hupper, hupperAll⟩ := hback.mp (htiers hlow).2
      obtain ⟨band, hband, hlowerEq, hupperEq⟩ := PriceBand.exists_of rule.assetId rule.beyond
        (ReferenceBand.lasts_iff.mpr hlasts) (htwo.lt hlowerAll hupperAll)
      refine ⟨band, hgiven.trans hband, band.limits, ?_, ?_, ?_, ?_, ?_⟩
      · rwa [hlowerEq]
      · rwa [hupperEq]
      · rw [hlowerEq]
        exact (isLeast_roundUp _).1.1
      · rw [hupperEq]
        exact (isGreatest_roundDown _).1.1
      · rw [hlowerEq, hupperEq]
        exact fun p hp hle hge => ⟨hlowerAll p hp hle hge, hupperAll p hp hle hge⟩
  · rw [if_neg hlow] at hgiven
    constructor
    · rintro ⟨band, hband, -, hlower, hupper, -⟩
      obtain ⟨hlasts, hlowerEq, hupperEq⟩ := PriceBand.of_ok (hgiven.symm.trans hband)
      rw [hlowerEq] at hlower
      rw [hupperEq] at hupper
      exact ⟨ReferenceBand.lasts_iff.mp hlasts, fun hpos => absurd hpos hlow,
        fun hzero => ⟨le_antisymm hzero hlower.1, hupper⟩⟩
    · rintro ⟨hlasts, -, hzero⟩
      obtain ⟨hlowest, hupper⟩ := hzero (not_lt.mp hlow)
      obtain ⟨band, hband, hlowerEq, hupperEq⟩ := PriceBand.exists_of rule.assetId rule.beyond
        (ReferenceBand.lasts_iff.mpr hlasts)
        (rule.lowest_lt_highest reference).1
      refine ⟨band, hgiven.trans hband, band.limits, ?_, ?_, ?_, ?_, ?_⟩
      · rw [hlowerEq, hlowest]
        exact ⟨le_rfl, onGrid_zero _⟩
      · rwa [hupperEq]
      · exact hlowerEq.ge
      · exact hupperEq.le
      · rw [hlowerEq, hupperEq]
        exact fun p _ hle hge => ⟨hle, hge⟩

/-- **A band is given** where two prices are inside and the grid meets at the tiers. -/
theorem ReferenceBand.Fits.band_answers (hfits : rule.Fits caller reference schedule place)
    (htwo : rule.TwoPrices reference schedule)
    (hlasts : ∀ until_ ∈ rule.end, reference.effectiveAt < until_)
    (htiers : 0 < rule.lowest reference.price → schedule.GoesOn (rule.lowest reference.price) ∧
      schedule.GoesBack (rule.highest reference.price)) :
    ∃ band, rule.band caller reference (some schedule) = .ok band := by
  obtain ⟨hless, hhighest⟩ := rule.lowest_lt_highest reference
  have hsome : ∃ p, schedule.OnTick p ∧ rule.lowest reference.price ≤ p ∧
      p ≤ rule.highest reference.price := by
    obtain ⟨p, q, hpq, hp, -, hlow, hhigh⟩ := htwo
    exact ⟨p, hp, hlow, hpq.le.trans hhigh⟩
  rw [hfits.band_eq]
  split_ifs with hlow
  · obtain ⟨-, hlower⟩ := (goesOn_iff hlow.le hsome).mp (htiers hlow).1
    obtain ⟨-, hupper⟩ := (goesBack_iff hhighest.le hsome).mp (htiers hlow).2
    obtain ⟨band, hband, -⟩ := PriceBand.exists_of _ _ (ReferenceBand.lasts_iff.mpr hlasts)
      (htwo.lt hlower hupper)
    exact ⟨band, hband⟩
  · obtain ⟨band, hband, -⟩ := PriceBand.exists_of _ _ (ReferenceBand.lasts_iff.mpr hlasts) hless
    exact ⟨band, hband⟩

theorem currentReference_spec {controls : DeclaredControls} {at_ : Instant}
    (h : controls.currentReference assetId at_ rule = some reference) :
    reference ∈ controls.references ∧ reference.assetId = assetId ∧ reference.effectiveAt ≤ at_ := by
  have hlast := List.mem_of_getLast? (Option.filter_eq_some_iff.mp h).1
  have heffective := List.mem_takeWhile_imp hlast
  obtain ⟨hmem, hasset⟩ := List.mem_filter.mp ((List.takeWhile_sublist _).subset hlast)
  exact ⟨hmem, by simpa using hasset, by simpa using heffective⟩

end

/-- **Reference bands are rounded inward** exactly where the grid meets at the tiers of their
    edges, and then controls whose references leave two prices inside always give a band. -/
theorem reference_band_rounds_inward_iff (caller : Rounding.Context 10 Decimal)
    (schedule : TickSchedule) :
    (∀ (rule : ReferenceBand) (reference : BandReference) (place : ℤ),
      rule.Fits caller reference schedule place →
        (rule.RoundsInward caller reference schedule ↔ rule.MeetsTiers reference schedule)) ∧
    ∀ controls : DeclaredControls,
      (∀ rule ∈ controls.rules, ∀ reference ∈ controls.references,
        rule.assetId = reference.assetId → rule.TwoPrices reference schedule ∧
          (∃ place, rule.Fits caller reference schedule place) ∧
          (0 < rule.lowest reference.price → schedule.GoesOn (rule.lowest reference.price) ∧
            schedule.GoesBack (rule.highest reference.price))) →
      ∀ assetId at_, ∃ band, controls.band caller assetId at_ (some schedule) = .ok band := by
  refine ⟨fun rule reference place => roundsInward_iff, fun controls hmeets assetId at_ => ?_⟩
  unfold DeclaredControls.band
  cases controls.bands.find? fun b => b.assetId = assetId ∧ b.InForce at_ with
  | some band => exact ⟨some band, rfl⟩
  | none =>
    cases hrule : controls.rule assetId at_ with
    | none => exact ⟨none, rfl⟩
    | some rule =>
      cases hcurrent : controls.currentReference assetId at_ rule with
      | none =>
        simp only [hcurrent]
        exact ⟨none, rfl⟩
      | some reference =>
        obtain ⟨hmem, hasset, heffective⟩ := currentReference_spec hcurrent
        have hfound := List.find?_some hrule
        obtain ⟨hruleAsset, hforce⟩ : rule.assetId = assetId ∧ rule.InForce at_ := by
          simpa using hfound
        obtain ⟨htwo, ⟨place, hfits⟩, htiers⟩ := hmeets rule (List.mem_of_find?_eq_some hrule)
          reference hmem (hruleAsset.trans hasset.symm)
        obtain ⟨band, hband⟩ := hfits.band_answers htwo
          (fun until_ huntil => heffective.trans_lt (hforce.2 until_ huntil)) htiers
        simp only [hcurrent, hband]
        exact ⟨some band, rfl⟩

/-! ## Two bands -/

def bandContext : Rounding.Context 10 Decimal := .standard

def tenths : TickSchedule where
  tiers := []
  last := 1 / 10
  ascending := .nil
  bounds_pos := fun _ h => nomatch h
  ticks_pos := fun _ h => nomatch h
  last_pos := by norm_num

def tenthsThenHalves : TickSchedule where
  tiers := [(10, 1 / 10)]
  last := 1 / 2
  ascending := List.pairwise_singleton _ _
  bounds_pos := by simp
  ticks_pos := by simp
  last_pos := by norm_num

def tenPercent : ReferenceBand where
  assetId := "share"
  start := 0
  «end» := none
  beyond := .refuse
  widths := .rates (1 / 10) (1 / 10)
  valid := by norm_num [BandWidths.Valid]

def atTen : BandReference where
  assetId := "share"
  effectiveAt := 0
  price := 1005 / 100

theorem tenPercent_edges : tenPercent.lowest atTen.price = 9045 / 1000 ∧
    tenPercent.highest atTen.price = 11055 / 1000 := by
  norm_num [tenPercent, atTen, ReferenceBand.lowest, ReferenceBand.highest]

theorem tenPercent_fits : tenPercent.Fits bandContext atTen tenthsThenHalves (-3) := by
  obtain ⟨hlow, hhigh⟩ := tenPercent_edges
  have herror : bandContext.error = 1 / 10 ^ 27 := by
    norm_num [bandContext, Rounding.Context.error, Rounding.Context.standard, Rounding.Context.halfEven]
  refine ⟨⟨⟨10 ^ 26, ?_⟩, ⟨10 ^ 26, ?_⟩⟩, ?_, ?_⟩
  · norm_num [bandContext, Rounding.Context.standard, Rounding.Context.halfEven]
  · norm_num [bandContext, Rounding.Context.standard, Rounding.Context.halfEven]
  · have htick : tenthsThenHalves.tick (9045 / 1000) = 1 / 10 := by decide +kernel
    rw [hlow]
    refine ⟨⟨9045, by norm_num⟩, ?_, ?_⟩
    · rw [htick]
      exact ⟨100, by norm_num⟩
    · rw [htick, herror, abs_of_pos (by norm_num)]
      norm_num
  · have htick : tenthsThenHalves.tick (11055 / 1000) = 1 / 2 := by decide +kernel
    rw [hhigh]
    refine ⟨⟨11055, by norm_num⟩, ?_, ?_⟩
    · rw [htick]
      exact ⟨500, by norm_num⟩
    · rw [htick, herror, abs_of_pos (by norm_num)]
      norm_num

theorem reference_band_rounds_inward_ten :
    tenPercent.RoundsInward bandContext atTen tenthsThenHalves ∧
      ∃ band, DeclaredControls.band { references := [atTen], rules := [tenPercent] } bandContext
        "share" 5 (some tenthsThenHalves) = .ok band := by
  obtain ⟨hlow, hhigh⟩ := tenPercent_edges
  have hlowTick : tenthsThenHalves.tick (9045 / 1000) = 1 / 10 := by decide +kernel
  have hhighTick : tenthsThenHalves.tick (11055 / 1000) = 1 / 2 := by decide +kernel
  have htiers : tenthsThenHalves.GoesOn (9045 / 1000) ∧ tenthsThenHalves.GoesBack (11055 / 1000) := by
    constructor
    · intro top htop
      have hten : tenthsThenHalves.top (9045 / 1000) = some 10 := by decide +kernel
      obtain rfl := Option.some.inj (hten.symm.trans htop)
      refine Or.inl ⟨91 / 10, by norm_num, by norm_num, ?_⟩
      rw [hlowTick]
      exact ⟨91, by norm_num⟩
    · have hten : tenthsThenHalves.bottom (11055 / 1000) = 10 := by decide +kernel
      refine Or.inl ⟨11, by rw [hten]; norm_num, by norm_num, ?_⟩
      rw [hhighTick]
      exact ⟨22, by norm_num⟩
  have htwo : tenPercent.TwoPrices atTen tenthsThenHalves := by
    have heleven : tenthsThenHalves.tick 11 = 1 / 2 := by decide +kernel
    have hten : tenthsThenHalves.tick 10 = 1 / 2 := by decide +kernel
    refine ⟨10, 11, by norm_num, ⟨by norm_num, ?_⟩, ⟨by norm_num, ?_⟩, ?_, ?_⟩
    · rw [hten]
      exact ⟨20, by norm_num⟩
    · rw [heleven]
      exact ⟨22, by norm_num⟩
    · rw [hlow]
      norm_num
    · rw [hhigh]
      norm_num
  have hmeets : 0 < tenPercent.lowest atTen.price →
      tenthsThenHalves.GoesOn (tenPercent.lowest atTen.price) ∧
        tenthsThenHalves.GoesBack (tenPercent.highest atTen.price) := by
    rw [hlow, hhigh]
    exact fun _ => htiers
  constructor
  · refine ((reference_band_rounds_inward_iff bandContext tenthsThenHalves).1 tenPercent atTen (-3)
      tenPercent_fits).mpr (Or.inr ⟨(fun _ h => nomatch h), hmeets, ?_⟩)
    rw [hlow]
    exact fun h => absurd h (by norm_num)
  · refine (reference_band_rounds_inward_iff bandContext tenthsThenHalves).2
      { references := [atTen], rules := [tenPercent] } ?_ "share" 5
    intro rule hrule reference hreference _
    obtain rfl := List.mem_singleton.mp hrule
    obtain rfl := List.mem_singleton.mp hreference
    exact ⟨htwo, ⟨-3, tenPercent_fits⟩, hmeets⟩

def tenBelow : ReferenceBand where
  assetId := "share"
  start := 0
  «end» := none
  beyond := .refuse
  widths := .offsets 10 (307 / 100)
  valid := by norm_num [BandWidths.Valid]

def ten : BandReference where
  assetId := "share"
  effectiveAt := 0
  price := 10

/-- **An upper edge off the grid**: the lower edge at zero, neither edge is rounded. -/
theorem upper_edge_left_off_the_grid : ∃ band,
    tenBelow.band bandContext ten (some tenths) = .ok band ∧ band.upper = 1307 / 100 ∧
      ¬ tenths.OnTick band.upper ∧ ¬ tenBelow.RoundsInward bandContext ten tenths := by
  obtain ⟨band, hband, hupper⟩ := exists_ok_of
    (x := tenBelow.band bandContext ten (some tenths)) (fun band => band.upper = 1307 / 100)
    (by decide +kernel)
  have htick : ∀ p, tenths.tick p = 1 / 10 := fun _ => rfl
  have hoff : ¬ tenths.OnTick band.upper := by
    rw [hupper]
    rintro ⟨-, hgrid⟩
    have hfloor := (onGrid_iff (u := (1 / 10 : ℚ)) (by norm_num) (1307 / 100)).mp hgrid
    revert hfloor
    decide +kernel
  refine ⟨band, hband, hupper, hoff, ?_⟩
  rintro (⟨other, hother, -, -, hon, -⟩ | hfew)
  · rw [hband] at hother
    exact hoff (ok_inj.mp hother ▸ hon)
  · refine hfew ⟨0, 1, by norm_num, ⟨le_rfl, onGrid_zero _⟩, ⟨by norm_num, ⟨10, ?_⟩⟩, ?_, ?_⟩
    · rw [htick]
      norm_num
    · norm_num [tenBelow, ten, ReferenceBand.lowest]
    · norm_num [tenBelow, ten, ReferenceBand.highest]

end AlphaLab
