/-
  Price grids by tier (`conventions/tick.py`).

  * `TickSchedule`: the tiers below a bound, each with its tick, and the tick above them all.
  * `tickSizeAt` and `roundToTick`; `OnTick schedule p`: `p` is a multiple of the tick quoted at it.
-/
import AlphaLab.Lib.Contexts
import AlphaLab.Lib.Runs
import AlphaLab.Portfolio.Ledger

namespace AlphaLab

open Rounding Fallible

inductive RoundingDirection where
  | down | up | nearest

/-- `TickSchedule`: the bounded tiers by their exclusive tops, and the tick of the last one. -/
structure TickSchedule where
  tiers : List (Decimal × Decimal)
  last : Decimal
  ascending : tiers.Pairwise fun a b => a.1 < b.1
  bounds_pos : ∀ tier ∈ tiers, 0 < tier.1
  ticks_pos : ∀ tier ∈ tiers, 0 < tier.2
  last_pos : 0 < last

/-- What a price grid refuses, or `quantize` raises. -/
inductive TickError where
  | negativePrice | invalidOperation

def tickIn (last price : Decimal) : List (Decimal × Decimal) → Decimal
  | [] => last
  | tier :: tiers => if price < tier.1 then tier.2 else tickIn last price tiers

def bottomIn (price : Decimal) : Decimal → List (Decimal × Decimal) → Decimal
  | below, [] => below
  | below, tier :: tiers => if price < tier.1 then below else bottomIn price tier.1 tiers

namespace TickSchedule

variable (schedule : TickSchedule)

def tick (price : Decimal) : Decimal := tickIn schedule.last price schedule.tiers

def tickSizeAt (price : Decimal) : Except TickError Decimal :=
  if price < 0 then .error .negativePrice else .ok (schedule.tick price)

def OnTick (price : Decimal) : Prop := 0 ≤ price ∧ OnGrid (schedule.tick price) price

def top (price : Decimal) : Option Decimal :=
  (schedule.tiers.find? fun tier => decide (price < tier.1)).map Prod.fst

def bottom (price : Decimal) : Decimal := bottomIn price 0 schedule.tiers

end TickSchedule

/-- `round_to_tick`, in a context; `quantize` refuses what has more digits than the context. -/
def roundToTick (caller : Rounding.Context 10 Decimal) (price tick : Decimal)
    (direction : RoundingDirection) : Except TickError Decimal := do
  let quotient := caller.round (price / tick)
  let steps : ℤ := match direction with
    | .down => ⌊quotient⌋
    | .up => ⌈quotient⌉
    | .nearest => roundHalfEven quotient
  require (|(steps : ℚ)| < 10 ^ caller.digits) .invalidOperation
  pure (caller.round (steps * tick))

section
variable {schedule : TickSchedule} {p q edge : Decimal}

theorem TickSchedule.tick_pos (schedule : TickSchedule) (p : Decimal) : 0 < schedule.tick p := by
  have hin : ∀ tiers : List (Decimal × Decimal), (∀ tier ∈ tiers, 0 < tier.2) →
      0 < tickIn schedule.last p tiers := by
    intro tiers htiers
    induction tiers with
    | nil => exact schedule.last_pos
    | cons tier tiers ih =>
      rw [tickIn]
      split_ifs
      · exact htiers tier (by simp)
      · exact ih fun t ht => htiers t (by simp [ht])
  exact hin _ schedule.ticks_pos

theorem TickSchedule.tick_eq_of_top (hle : p ≤ q) (htop : ∀ top ∈ schedule.top p, q < top) :
    schedule.tick q = schedule.tick p := by
  have hin : ∀ tiers : List (Decimal × Decimal),
      (∀ top ∈ (tiers.find? fun tier => decide (p < tier.1)).map Prod.fst, q < top) →
        tickIn schedule.last q tiers = tickIn schedule.last p tiers := by
    intro tiers htop
    induction tiers with
    | nil => rfl
    | cons tier tiers ih =>
      rw [tickIn, tickIn]
      by_cases hp : p < tier.1
      · have hq : q < tier.1 := htop tier.1 (by simp [hp])
        rw [if_pos hp, if_pos hq]
      · have hq : ¬ q < tier.1 := fun hq => hp (hle.trans_lt hq)
        rw [if_neg hp, if_neg hq]
        exact ih (by simpa [List.find?_cons, hp] using htop)
  exact hin _ htop

theorem TickSchedule.lt_top {top : Decimal} (h : top ∈ schedule.top p) : p < top := by
  obtain ⟨tier, htier, rfl⟩ := Option.map_eq_some_iff.mp (Option.mem_def.mp h)
  simpa using List.find?_some htier

theorem le_bottomIn {below : Decimal} {tiers : List (Decimal × Decimal)}
    (htiers : tiers.Pairwise fun a b => a.1 < b.1) (hbelow : ∀ tier ∈ tiers, below ≤ tier.1) :
    below ≤ bottomIn p below tiers := by
  induction tiers generalizing below with
  | nil => exact le_rfl
  | cons tier tiers ih =>
    rw [bottomIn]
    split_ifs
    · exact le_rfl
    · exact (hbelow tier (by simp)).trans
        (ih htiers.of_cons fun t ht => ((List.pairwise_cons.mp htiers).1 t ht).le)

theorem TickSchedule.tick_eq_of_bottom (hle : q ≤ p) (hbottom : schedule.bottom p ≤ q) :
    schedule.tick q = schedule.tick p := by
  have hin : ∀ (tiers : List (Decimal × Decimal)) (below : Decimal),
      tiers.Pairwise (fun a b => a.1 < b.1) → bottomIn p below tiers ≤ q →
        tickIn schedule.last q tiers = tickIn schedule.last p tiers := by
    intro tiers
    induction tiers with
    | nil => exact fun _ _ _ => rfl
    | cons tier tiers ih =>
      intro below htiers hbelow
      rw [bottomIn] at hbelow
      rw [tickIn, tickIn]
      split_ifs at hbelow with hp
      · rw [if_pos hp, if_pos (hle.trans_lt hp)]
      · have hq : tier.1 ≤ q := (le_bottomIn htiers.of_cons fun t ht =>
          ((List.pairwise_cons.mp htiers).1 t ht).le).trans hbelow
        rw [if_neg hp, if_neg (not_lt.mpr hq)]
        exact ih tier.1 htiers.of_cons hbelow
  exact hin _ 0 schedule.ascending hbottom

theorem TickSchedule.bottom_le (hp : 0 ≤ p) : schedule.bottom p ≤ p := by
  have hin : ∀ (tiers : List (Decimal × Decimal)) (below : Decimal), below ≤ p →
      bottomIn p below tiers ≤ p := by
    intro tiers
    induction tiers with
    | nil => exact fun _ h => h
    | cons tier tiers ih =>
      intro below hbelow
      rw [bottomIn]
      split_ifs with htier
      · exact hbelow
      · exact ih tier.1 (not_lt.mp htier)
  exact hin _ 0 hp

/-! ## The next price of the grid -/

/-- The tick of a price goes on to the grid above: a multiple of it is left in its tier, or the
    first multiple from the tier's top on is the first price of the grid there. -/
def TickSchedule.GoesOn (schedule : TickSchedule) (edge : Decimal) : Prop :=
  ∀ top ∈ schedule.top edge,
    (∃ p, edge ≤ p ∧ p < top ∧ OnGrid (schedule.tick edge) p) ∨
      ∃ p, IsLeast {p | top ≤ p ∧ OnGrid (schedule.tick edge) p} p ∧
        IsLeast {p | top ≤ p ∧ schedule.OnTick p} p

/-- The tick of a price goes back to the grid below: a multiple of it is left in its tier, or the
    last multiple below the tier is the last price of the grid there. -/
def TickSchedule.GoesBack (schedule : TickSchedule) (edge : Decimal) : Prop :=
  (∃ p, schedule.bottom edge ≤ p ∧ p ≤ edge ∧ OnGrid (schedule.tick edge) p) ∨
    ∃ p, IsGreatest {p | p < schedule.bottom edge ∧ OnGrid (schedule.tick edge) p} p ∧
      IsGreatest {p | p < schedule.bottom edge ∧ schedule.OnTick p} p

def TickSchedule.roundUp (schedule : TickSchedule) (edge : Decimal) : Decimal :=
  ⌈edge / schedule.tick edge⌉ * schedule.tick edge

def TickSchedule.roundDown (schedule : TickSchedule) (edge : Decimal) : Decimal :=
  floorTo (schedule.tick edge) edge

theorem isLeast_roundUp (edge : Decimal) :
    IsLeast {p | edge ≤ p ∧ OnGrid (schedule.tick edge) p} (schedule.roundUp edge) := by
  have htick := schedule.tick_pos edge
  refine ⟨⟨?_, ⟨_, rfl⟩⟩, ?_⟩
  · exact (div_le_iff₀ htick).mp (Int.le_ceil _)
  · rintro _ ⟨hle, k, rfl⟩
    refine mul_le_mul_of_nonneg_right ?_ htick.le
    exact_mod_cast Int.ceil_le.mpr ((div_le_iff₀ htick).mpr hle)

theorem isGreatest_roundDown (edge : Decimal) :
    IsGreatest {p | p ≤ edge ∧ OnGrid (schedule.tick edge) p} (schedule.roundDown edge) := by
  have htick := schedule.tick_pos edge
  refine ⟨⟨floorTo_le htick edge, ⟨_, rfl⟩⟩, ?_⟩
  rintro _ ⟨hle, k, rfl⟩
  refine mul_le_mul_of_nonneg_right ?_ htick.le
  exact_mod_cast Int.le_floor.mpr ((le_div_iff₀ htick).mpr hle)

/-- **An edge rounded up is the next price of the grid** iff its tick goes on. -/
theorem goesOn_iff (hedge : 0 ≤ edge) {bound : Decimal}
    (hprice : ∃ p, schedule.OnTick p ∧ edge ≤ p ∧ p ≤ bound) :
    schedule.GoesOn edge ↔ schedule.OnTick (schedule.roundUp edge) ∧
      ∀ p, schedule.OnTick p → edge ≤ p → p ≤ bound → schedule.roundUp edge ≤ p := by
  obtain ⟨⟨hup, hmultiple⟩, hleast⟩ :=
    (isLeast_roundUp edge : IsLeast _ (schedule.roundUp edge))
  have hinside : ∀ {p}, edge ≤ p → (∀ top ∈ schedule.top edge, p < top) →
      (schedule.OnTick p ↔ OnGrid (schedule.tick edge) p) := by
    intro p hle htop
    rw [TickSchedule.OnTick, schedule.tick_eq_of_top hle htop]
    exact and_iff_right (hedge.trans hle)
  constructor
  · intro hgoes
    cases htop : schedule.top edge with
    | none =>
      have hnone : ∀ p, ∀ top ∈ schedule.top edge, p < top := by simp [htop]
      exact ⟨(hinside hup (hnone _)).mpr hmultiple,
        fun p hp hle _ => hleast ⟨hle, (hinside hle (hnone p)).mp hp⟩⟩
    | some top =>
      have hbelow : ∀ {p}, p < top → ∀ t ∈ schedule.top edge, p < t := by simp [htop]
      rcases hgoes top htop with ⟨q, hq, hqtop, hqgrid⟩ | ⟨q, hfirst, hqgrid⟩
      · have hroundTop : schedule.roundUp edge < top := (hleast ⟨hq, hqgrid⟩).trans_lt hqtop
        refine ⟨(hinside hup (hbelow hroundTop)).mpr hmultiple, fun p hp hle _ => ?_⟩
        rcases lt_or_ge p top with hp' | hp'
        · exact hleast ⟨hle, (hinside hle (hbelow hp')).mp hp⟩
        · exact hroundTop.le.trans hp'
      · rcases lt_or_ge (schedule.roundUp edge) top with hlow | hhigh
        · refine ⟨(hinside hup (hbelow hlow)).mpr hmultiple, fun p hp hle _ => ?_⟩
          rcases lt_or_ge p top with hp' | hp'
          · exact hleast ⟨hle, (hinside hle (hbelow hp')).mp hp⟩
          · exact hlow.le.trans hp'
        · have hself : schedule.roundUp edge = q := le_antisymm
            (hleast ⟨(schedule.lt_top htop).le.trans hfirst.1.1, hfirst.1.2⟩)
            (hfirst.2 ⟨hhigh, hmultiple⟩)
          rw [hself]
          refine ⟨hqgrid.1.2, fun p hp hle _ => ?_⟩
          rcases lt_or_ge p top with hp' | hp'
          · exact hself ▸ hleast ⟨hle, (hinside hle (hbelow hp')).mp hp⟩
          · exact hqgrid.2 ⟨hp', hp⟩
  · rintro ⟨hon, hall⟩ top htop
    rcases lt_or_ge (schedule.roundUp edge) top with hlow | hhigh
    · exact Or.inl ⟨_, hup, hlow, hmultiple⟩
    · refine Or.inr ⟨_, ⟨⟨hhigh, hmultiple⟩, fun p hp => ?_⟩, ⟨hhigh, hon⟩, fun p hp => ?_⟩
      · exact hleast ⟨(schedule.lt_top htop).le.trans hp.1, hp.2⟩
      · have hle : edge ≤ p := (schedule.lt_top htop).le.trans hp.1
        rcases le_or_gt p bound with hin | hout
        · exact hall p hp.2 hle hin
        · obtain ⟨s, hs, hsle, hsbound⟩ := hprice
          exact (hall s hs hsle hsbound).trans (hsbound.trans hout.le)

/-- **An edge rounded down is the last price of the grid** up to it iff its tick goes back. -/
theorem goesBack_iff (hedge : 0 ≤ edge) {bound : Decimal}
    (hprice : ∃ p, schedule.OnTick p ∧ bound ≤ p ∧ p ≤ edge) :
    schedule.GoesBack edge ↔ schedule.OnTick (schedule.roundDown edge) ∧
      ∀ p, schedule.OnTick p → bound ≤ p → p ≤ edge → p ≤ schedule.roundDown edge := by
  obtain ⟨⟨hdown, hmultiple⟩, hgreatest⟩ :=
    (isGreatest_roundDown edge : IsGreatest _ (schedule.roundDown edge))
  have hnonneg : 0 ≤ schedule.roundDown edge := floorTo_nonneg (schedule.tick_pos edge) hedge
  have hinside : ∀ {p}, 0 ≤ p → p ≤ edge → schedule.bottom edge ≤ p →
      (schedule.OnTick p ↔ OnGrid (schedule.tick edge) p) := by
    intro p hp hle hbottom
    rw [TickSchedule.OnTick, schedule.tick_eq_of_bottom hle hbottom]
    exact and_iff_right hp
  constructor
  · intro hgoes
    rcases lt_or_ge (schedule.roundDown edge) (schedule.bottom edge) with hlow | hhigh
    · rcases hgoes with ⟨q, hbottom, hq, hqgrid⟩ | ⟨q, hlast, hqgrid⟩
      · exact absurd (hgreatest ⟨hq, hqgrid⟩) (not_le.mpr (hlow.trans_le hbottom))
      · have hself : schedule.roundDown edge = q := le_antisymm (hlast.2 ⟨hlow, hmultiple⟩)
          (hgreatest ⟨hlast.1.1.le.trans (schedule.bottom_le hedge), hlast.1.2⟩)
        rw [hself]
        refine ⟨hqgrid.1.2, fun p hp _ hle => ?_⟩
        rcases lt_or_ge p (schedule.bottom edge) with hp' | hp'
        · exact hqgrid.2 ⟨hp', hp⟩
        · exact hself ▸ hgreatest ⟨hle, (hinside hp.1 hle hp').mp hp⟩
    · refine ⟨(hinside hnonneg hdown hhigh).mpr hmultiple, fun p hp _ hle => ?_⟩
      rcases lt_or_ge p (schedule.bottom edge) with hp' | hp'
      · exact hp'.le.trans hhigh
      · exact hgreatest ⟨hle, (hinside hp.1 hle hp').mp hp⟩
  · rintro ⟨hon, hall⟩
    rcases lt_or_ge (schedule.roundDown edge) (schedule.bottom edge) with hlow | hhigh
    · refine Or.inr ⟨_, ⟨⟨hlow, hmultiple⟩, fun p hp => ?_⟩, ⟨hlow, hon⟩, fun p hp => ?_⟩
      · exact hgreatest ⟨hp.1.le.trans (schedule.bottom_le hedge), hp.2⟩
      · have hle : p ≤ edge := hp.1.le.trans (schedule.bottom_le hedge)
        rcases le_or_gt bound p with hin | hout
        · exact hall p hp.2 hin hle
        · obtain ⟨s, hs, hsbound, hsle⟩ := hprice
          exact hout.le.trans (hsbound.trans (hall s hs hsbound hsle))
    · exact Or.inl ⟨_, hhigh, hdown, hmultiple⟩

end

end AlphaLab
