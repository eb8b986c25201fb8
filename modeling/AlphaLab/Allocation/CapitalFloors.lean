/-
  An allocation of capital accounts for every unit where roundings cannot reach one.

  * `Carried`: granularity, capital and reserves are whole numbers of a place, what the roundings
    of an account's figures may add up to is below it, and requests are rounded down exactly.
  * `accounts_for_every_unit`: then a decision is answered, and an allocation divides what each
    account has available into what is reserved, allocated and left.
-/
import AlphaLab.Allocation.Capital

namespace AlphaLab

open Rounding Fallible

/-! ## Rounding down -/

/-- How far a figure may be rounded, as a share of it. -/
def capitalError : Decimal := ((10 : ℕ) : ℚ) ^ (1 - 28 : ℤ) / 2

section
variable {amount granularity : Decimal} {place : ℤ}

theorem abs_capital_sub_le (x : Decimal) : |capitalContext.round x - x| ≤ |x| * capitalError :=
  abs_roundSig_sub_le (by decide) x

theorem capitalError_pos : 0 < capitalError := by norm_num [capitalError]

variable {x : Decimal}

theorem capital_le_mul (hx : 0 ≤ x) : capitalContext.round x ≤ x * (1 + capitalError) := by
  have herror := (abs_le.mp (abs_capital_sub_le x)).2
  rw [abs_of_nonneg hx] at herror
  linarith

theorem capital_nonneg (hx : 0 ≤ x) : 0 ≤ capitalContext.round x :=
  Context.round_nonneg (by decide) hx

theorem onGrid_of_carried (hx : 0 ≤ x) (h : capitalContext.round x = x) :
    ∃ m : ℤ, OnGrid (((10 : ℕ) : ℚ) ^ m) x ∧ x < ((10 : ℕ) : ℚ) ^ (m + 28) := by
  rcases hx.eq_or_lt with rfl | hpos
  · exact ⟨0, onGrid_zero _, by positivity⟩
  refine ⟨Int.log 10 x + 1 - 28, ?_, ?_⟩
  · have hround : roundSig 10 28 x = roundTo (((10 : ℕ) : ℚ) ^ (Int.log 10 x + 1 - 28)) x := by
      rw [roundSig, if_neg hpos.ne', lastDigit, abs_of_pos hpos]
      norm_num
    have hself : x = roundTo (((10 : ℕ) : ℚ) ^ (Int.log 10 x + 1 - 28)) x :=
      h.symm.trans hround
    have hgrid : OnGrid (((10 : ℕ) : ℚ) ^ (Int.log 10 x + 1 - 28))
        (roundTo (((10 : ℕ) : ℚ) ^ (Int.log 10 x + 1 - 28)) x) := onGrid_roundTo _ _
    rwa [← hself] at hgrid
  · have hlog := Int.lt_zpow_succ_log_self (b := 10) (by decide) x
    simpa using hlog

theorem capitalFloor_power (hamount : 0 ≤ amount) (hcarried : capitalContext.round amount = amount)
    (q : ℤ) : capitalFloor amount (((10 : ℕ) : ℚ) ^ q) = floorTo (((10 : ℕ) : ℚ) ^ q) amount := by
  obtain ⟨m, ⟨k, hk⟩, hsmall⟩ := onGrid_of_carried hamount hcarried
  have hten : ((10 : ℕ) : ℚ) ≠ 0 := by norm_num
  have hq : (0 : ℚ) < ((10 : ℕ) : ℚ) ^ q := by positivity
  have hquotient : amount / ((10 : ℕ) : ℚ) ^ q = k * ((10 : ℕ) : ℚ) ^ (m - q) := by
    rw [hk, zpow_sub₀ hten, mul_div_assoc]
  have hless : amount / ((10 : ℕ) : ℚ) ^ q < ((10 : ℕ) : ℚ) ^ (m - q + 28) := by
    have hexponent : m - q + 28 + q = m + 28 := by ring
    rwa [div_lt_iff₀ hq, ← zpow_add₀ hten, hexponent]
  have hdivide : capitalContext.round (amount / ((10 : ℕ) : ℚ) ^ q) =
      amount / ((10 : ℕ) : ℚ) ^ q := by
    refine capitalContext.exact (m := m - q) ⟨k, hquotient⟩ ?_
    rwa [abs_of_nonneg (div_nonneg hamount hq.le)]
  rw [capitalFloor, hdivide, floorTo]
  have hunits : (0 : ℤ) ≤ ⌊amount / ((10 : ℕ) : ℚ) ^ q⌋ :=
    Int.floor_nonneg.mpr (div_nonneg hamount hq.le)
  have habs : |(⌊amount / ((10 : ℕ) : ℚ) ^ q⌋ : ℚ) * ((10 : ℕ) : ℚ) ^ q| ≤ amount := by
    rw [abs_of_nonneg (mul_nonneg (by exact_mod_cast hunits) hq.le), ← le_div_iff₀ hq]
    exact Int.floor_le _
  rcases le_total m q with hle | hge
  · -- the units are whole, and below the digits of the context
    refine capitalContext.exact (m := q) ⟨_, rfl⟩ (lt_of_le_of_lt habs (hsmall.trans_le ?_))
    exact zpow_le_zpow_right₀ (by norm_num) (by change m + 28 ≤ q + 28; omega)
  · -- the amount is a whole number of units as it is
    have hwhole : (⌊amount / ((10 : ℕ) : ℚ) ^ q⌋ : ℚ) * ((10 : ℕ) : ℚ) ^ q = amount :=
      (onGrid_iff hq.ne' amount).mp ((onGrid_zpow hten hge).trans ⟨k, hk⟩)
    rw [hwhole, hcarried]

/-- An amount of the granularity's place, small for it, is rounded down to at most itself. -/
theorem capitalFloor_grid (hamount : 0 ≤ amount) (hpos : 0 < granularity)
    (hgrid : OnGrid (((10 : ℕ) : ℚ) ^ place) granularity)
    (honGrid : OnGrid (((10 : ℕ) : ℚ) ^ place) amount)
    (hsmall : amount * capitalError < ((10 : ℕ) : ℚ) ^ place) :
    ∃ n : ℤ, 0 ≤ n ∧ capitalFloor amount granularity = n * granularity ∧
      n * granularity ≤ amount := by
  have hunit : (0 : ℚ) < ((10 : ℕ) : ℚ) ^ place := by positivity
  have hdivide : 0 ≤ capitalContext.round (amount / granularity) :=
    capital_nonneg (div_nonneg hamount hpos.le)
  have hle : (⌊capitalContext.round (amount / granularity)⌋ : ℚ) * granularity ≤ amount :=
    mul_le_of_le_roundSig_div (by decide) hunit hpos hamount hgrid honGrid hsmall
      (Int.floor_le _)
  have hnonneg : 0 ≤ ⌊capitalContext.round (amount / granularity)⌋ := Int.floor_nonneg.mpr hdivide
  refine ⟨_, hnonneg, ?_, hle⟩
  refine capitalContext.exact (m := place) (hgrid.int_mul _) ?_
  rw [abs_of_nonneg (mul_nonneg (by exact_mod_cast hnonneg) hpos.le)]
  refine hle.trans_lt ?_
  have hdigits : ((10 : ℕ) : ℚ) ^ (place + (28 : ℕ)) = ((10 : ℕ) : ℚ) ^ place * 10 ^ 28 := by
    rw [zpow_add₀ (by norm_num)]
    norm_num
  change amount < ((10 : ℕ) : ℚ) ^ (place + (28 : ℕ))
  rw [hdigits]
  have herror : capitalError = 1 / (2 * 10 ^ 27) := by norm_num [capitalError]
  rw [herror, mul_one_div, div_lt_iff₀ (by norm_num)] at hsmall
  nlinarith

end

/-! ## Where roundings cannot reach a unit -/

namespace CapitalAllocationPlan

variable {ε : Type} (caller : Rounding.Context 10 Decimal) (converter : CurrencyConverter ε)
  (plan : CapitalAllocationPlan) (place : ℤ)

/-- An amount is rounded down exactly: the granularity is a power of ten and the amount carried,
    or nothing is scaled and the amount is of the granularity's place, and small for it. -/
def Floorable (amount : Decimal) : Prop :=
  ((∃ q : ℤ, plan.granularity = ((10 : ℕ) : ℚ) ^ q) ∧ capitalContext.round amount = amount) ∨
    plan.oversubscription = .refuse ∧ OnGrid (((10 : ℕ) : ℚ) ^ place) amount ∧
      amount * capitalError < ((10 : ℕ) : ℚ) ^ place

def FloorsRequests : Prop :=
  match plan.rule with
  | .fixedAmounts amounts => ∀ p ∈ plan.placements, plan.Floorable place (amounts p)
  | _ => ∃ q : ℤ, plan.granularity = ((10 : ℕ) : ℚ) ^ q

/-- Figures are whole numbers of a place, and what their roundings may add up to is below it. -/
structure Carried : Prop where
  granularity : OnGrid (((10 : ℕ) : ℚ) ^ place) plan.granularity
  requests : plan.FloorsRequests place
  accounts : ∀ a ∈ plan.accounts, OnGrid (((10 : ℕ) : ℚ) ^ place) a.available ∧
    OnGrid (((10 : ℕ) : ℚ) ^ place) a.reserved ∧ a.available < ((10 : ℕ) : ℚ) ^ (place + 28)
  room : ∀ a ∈ plan.accounts, (a.available - a.reserved) *
    ((1 + plan.placements.length * caller.error) * (1 + capitalError) ^ 2 - 1) <
      ((10 : ℕ) : ℚ) ^ place

/-- The converter answers for each pair a plan needs, an amount of few enough digits. -/
def Answered : Prop :=
  ∀ a ∈ plan.accounts, a.currency ≠ plan.baseCurrency → ∀ amount : Decimal, 0 < amount →
    ∀ pair ∈ [(a.currency, plan.baseCurrency), (plan.baseCurrency, a.currency)],
      ∃ record, converter amount pair.1 pair.2 plan.asOf = .ok record ∧ record.base = pair.1 ∧
        record.quote = pair.2 ∧ 0 ≤ record.converted ∧
        capitalContext.round record.converted = record.converted

end CapitalAllocationPlan

/-- **Every unit is accounted for**: each account's available capital is what is reserved,
    allocated and left, exactly, what is allocated is what its placements receive and at most what
    is free, and each placement receives a multiple of the granularity, at most its request. -/
structure CapitalAllocationResult.AccountsForEvery (plan : CapitalAllocationPlan)
    (entries : List PlacementAllocation) (result : CapitalAllocationResult) : Prop where
  answered : result.placements = some entries
  received : ∀ e ∈ entries, 0 ≤ e.allocated ∧ OnGrid plan.granularity e.allocated ∧
    e.allocated ≤ e.requested
  reconciled : result.accounts.map (·.account) = plan.accounts ∧ ∀ a ∈ result.accounts,
    a.account.available = a.account.reserved + a.allocated + a.unallocated ∧
    a.allocated ≤ a.account.available - a.account.reserved ∧
    a.allocated = ((entries.filter fun e => e.placement.accountId = a.account.accountId).map
      (·.allocated)).sum

variable {entries : List PlacementAllocation}

section
variable {ε : Type} {caller : Rounding.Context 10 Decimal} {converter : CurrencyConverter ε}
  {plan : CapitalAllocationPlan} {place : ℤ} {requests l : List CapitalRequest}

variable {a : CapitalAccount}

theorem CapitalAllocationPlan.Carried.free (h : plan.Carried caller place) (ha : a ∈ plan.accounts) :
    a.free = a.available - a.reserved := by
  obtain ⟨havailable, hreserved, hsmall⟩ := h.accounts a ha
  refine capitalContext.exact (m := place) (havailable.sub hreserved) ?_
  rw [abs_of_nonneg (sub_nonneg.mpr a.committed)]
  have hnonneg := a.nonneg
  exact lt_of_le_of_lt (by linarith) hsmall

theorem convert_answers (h : plan.Answered converter) (ha : a ∈ plan.accounts)
    (pair : String × String)
    (hpair : pair ∈ [(a.currency, plan.baseCurrency), (plan.baseCurrency, a.currency)])
    {amount : Decimal} (hamount : 0 ≤ amount) (hcarried : capitalContext.round amount = amount) :
    ∃ converted, plan.convert converter amount pair.1 pair.2 = .ok converted ∧
      0 ≤ converted.1 ∧ capitalContext.round converted.1 = converted.1 := by
  unfold CapitalAllocationPlan.convert
  split_ifs with hsame
  · exact ⟨(amount, none), rfl, hamount, hcarried⟩
  · push Not at hsame
    have hcurrency : a.currency ≠ plan.baseCurrency := by
      intro heq
      refine hsame.1 ?_
      rcases List.mem_pair.mp hpair with rfl | rfl
      exacts [heq, heq.symm]
    obtain ⟨record, hrecord, hbase, hquote, hnonneg, hround⟩ :=
      h a ha hcurrency amount (hamount.lt_of_ne' hsame.2) pair hpair
    refine ⟨(record.converted, some record), ?_, hnonneg, hround⟩
    rw [hrecord]
    simp only [hbase, hquote, ne_eq, not_true_eq_false, or_self, if_false]

/-- What a placement asks for: not negative, of its account, and rounded down exactly. -/
structure CapitalRequest.Asks (plan : CapitalAllocationPlan) (place : ℤ) (p : CapitalPlacement)
    (r : CapitalRequest) : Prop where
  placement : r.placement = p
  account : r.account ∈ plan.accounts
  accountId : r.account.accountId = p.accountId
  nonneg : 0 ≤ r.requested
  floorable : plan.Floorable place r.requested

variable {p : CapitalPlacement}

theorem request_answers (hplan : plan.Carried caller place) (h : plan.Answered converter)
    {totalFree : Decimal} (hfree : 0 ≤ totalFree) (hp : p ∈ plan.placements) :
    ∃ r, plan.request converter totalFree p = .ok r ∧ r.Asks plan place p := by
  obtain ⟨a, ha, hid⟩ := List.mem_map.mp (plan.held p hp)
  have hfind : ∃ account, (plan.accounts.find? fun a => a.accountId = p.accountId) = some account :=
    Option.isSome_iff_exists.mp (List.find?_isSome.mpr ⟨a, ha, by simpa using hid⟩)
  obtain ⟨account, haccount⟩ := hfind
  have hmem := List.mem_of_find?_eq_some haccount
  have haccountId : account.accountId = p.accountId := by
    simpa using List.find?_some haccount
  have hrequests := hplan.requests
  have hnonneg := plan.nonneg
  -- a share of the capital is carried, and so is what it is converted to
  have hshare : ∀ {fraction : Decimal}, 0 ≤ fraction →
      (∃ q : ℤ, plan.granularity = ((10 : ℕ) : ℚ) ^ q) → ∃ converted,
        plan.convert converter (capitalContext.round (fraction * totalFree)) plan.baseCurrency
          account.currency = .ok converted ∧ 0 ≤ converted.1 ∧
          plan.Floorable place converted.1 := by
    intro fraction hfraction hpower
    have hproduct := mul_nonneg hfraction hfree
    obtain ⟨converted, hconverted, hpos, hround⟩ := convert_answers h hmem
      (plan.baseCurrency, account.currency) (by simp) (capital_nonneg hproduct)
      (capitalContext.twice hproduct)
    exact ⟨converted, hconverted, hpos, Or.inl ⟨hpower, hround⟩⟩
  unfold CapitalAllocationPlan.request
  rw [haccount]
  unfold CapitalAllocationPlan.FloorsRequests at hrequests
  cases hrule : plan.rule with
  | fixedAmounts amounts =>
    rw [hrule] at hrequests hnonneg
    exact ⟨⟨p, account, amounts p, none⟩, rfl, rfl, hmem, haccountId, hnonneg p hp,
      hrequests p hp⟩
  | placementWeights weights =>
    rw [hrule] at hrequests hnonneg
    obtain ⟨converted, hconverted, hpos, hfloor⟩ := hshare (hnonneg p hp) hrequests
    refine ⟨⟨p, account, converted.1, converted.2⟩, ?_, rfl, hmem, haccountId, hpos, hfloor⟩
    exact bind_ok.mpr ⟨account, rfl, bind_ok.mpr ⟨converted, hconverted, rfl⟩⟩
  | equalWeights fraction =>
    rw [hrule] at hrequests hnonneg
    have hpart : 0 ≤ capitalContext.round (fraction / (plan.placements.length : ℕ)) :=
      capital_nonneg (div_nonneg (le_of_lt hnonneg) (Nat.cast_nonneg _))
    obtain ⟨converted, hconverted, hpos, hfloor⟩ := hshare hpart hrequests
    refine ⟨⟨p, account, converted.1, converted.2⟩, ?_, rfl, hmem, haccountId, hpos, hfloor⟩
    exact bind_ok.mpr ⟨account, rfl, bind_ok.mpr ⟨converted, hconverted, rfl⟩⟩

/-! ## What placements receive -/

theorem CapitalAllocationPlan.Floorable.floor (hplan : plan.Carried caller place)
    {amount : Decimal} (h : plan.Floorable place amount) (hamount : 0 ≤ amount) :
    ∃ n : ℤ, 0 ≤ n ∧ capitalFloor amount plan.granularity = n * plan.granularity ∧
      n * plan.granularity ≤ amount := by
  rcases h with ⟨⟨q, hq⟩, hcarried⟩ | ⟨-, hgrid, hsmall⟩
  · have hpos : (0 : ℚ) < ((10 : ℕ) : ℚ) ^ q := by positivity
    rw [hq]
    exact ⟨_, Int.floor_nonneg.mpr (div_nonneg hamount hpos.le),
      capitalFloor_power hamount hcarried q, floorTo_le hpos amount⟩
  · exact capitalFloor_grid hamount plan.positive hplan.granularity hgrid hsmall

theorem scale_eq_some {scale : Decimal} (h : plan.scale caller requests a = some scale) :
    plan.oversubscription = .proRata ∧
      a.free < CapitalAllocationPlan.asked caller requests a ∧
      scale = capitalContext.round (a.free / CapitalAllocationPlan.asked caller requests a) := by
  unfold CapitalAllocationPlan.scale at h
  split_ifs at h with hfits
  cases hrule : plan.oversubscription with
  | refuse => rw [hrule] at h; cases h
  | proRata =>
    rw [hrule] at h
    exact ⟨rfl, not_le.mp hfits, (Option.some.inj h).symm⟩

theorem scale_bounds {scale : Decimal} (h : plan.scale caller requests a = some scale) :
    0 ≤ scale ∧ scale ≤ 1 := by
  obtain ⟨-, hless, rfl⟩ := scale_eq_some h
  have hfree : 0 ≤ a.free := capital_nonneg (sub_nonneg.mpr a.committed)
  have hasked := hfree.trans_lt hless
  have hone : capitalContext.round 1 = 1 :=
    capitalContext.exact (m := 0) ⟨1, by norm_num⟩ (by
      rw [abs_one]
      exact one_lt_zpow₀ (by norm_num) (by decide))
  refine ⟨capital_nonneg (div_nonneg hfree hasked.le), ?_⟩
  rw [← hone]
  exact capitalContext.mono ((div_le_one hasked).mpr hless.le)

variable {r : CapitalRequest}

theorem scaled_answers (caller : Rounding.Context 10 Decimal) (requests : List CapitalRequest)
    (h : r.Asks plan place p) :
    0 ≤ plan.scaled caller requests r ∧ plan.scaled caller requests r ≤ r.requested ∧
      plan.Floorable place (plan.scaled caller requests r) := by
  unfold CapitalAllocationPlan.scaled
  cases hscale : plan.scale caller requests r.account with
  | none => exact ⟨h.nonneg, le_rfl, h.floorable⟩
  | some scale =>
    obtain ⟨hnonneg, hone⟩ := scale_bounds hscale
    obtain ⟨hproRata, -, -⟩ := scale_eq_some hscale
    have hproduct := mul_nonneg h.nonneg hnonneg
    rcases h.floorable with ⟨hpower, hcarried⟩ | ⟨hrefuse, -, -⟩
    · refine ⟨capital_nonneg hproduct, ?_, Or.inl ⟨hpower, capitalContext.twice hproduct⟩⟩
      have hround := capitalContext.mono (mul_le_of_le_one_right h.nonneg hone)
      rwa [hcarried] at hround
    · rw [hproRata] at hrefuse
      cases hrefuse

/-- What a request receives: a multiple of the granularity, at most what it is scaled to. -/
structure PlacementAllocation.Receives (caller : Rounding.Context 10 Decimal)
    (plan : CapitalAllocationPlan) (requests : List CapitalRequest) (r : CapitalRequest)
    (e : PlacementAllocation) : Prop where
  placement : e.placement = r.placement
  requested : e.requested = r.requested
  account : r.account ∈ plan.accounts ∧ r.account.accountId = r.placement.accountId
  asks : 0 ≤ r.requested
  nonneg : 0 ≤ e.allocated
  multiple : OnGrid plan.granularity e.allocated
  within : e.allocated ≤ plan.scaled caller requests r
  atMost : plan.scaled caller requests r ≤ r.requested

theorem allocation_answers (hplan : plan.Carried caller place) (h : plan.Answered converter)
    (hr : r.Asks plan place p) :
    ∃ e, plan.allocation caller converter requests r = .ok e ∧ e.Receives caller plan requests r := by
  obtain ⟨hnonneg, hle, hfloorable⟩ := scaled_answers caller requests hr
  obtain ⟨n, hn, hfloor, hwithin⟩ := hfloorable.floor hplan hnonneg
  have hallocated : 0 ≤ capitalFloor (plan.scaled caller requests r) plan.granularity := by
    rw [hfloor]
    exact mul_nonneg (by exact_mod_cast hn) plan.positive.le
  have hcarried : capitalContext.round (capitalFloor (plan.scaled caller requests r)
      plan.granularity) = capitalFloor (plan.scaled caller requests r) plan.granularity := by
    refine capitalContext.twice (mul_nonneg ?_ plan.positive.le)
    exact_mod_cast Int.floor_nonneg.mpr (capital_nonneg (div_nonneg hnonneg plan.positive.le))
  obtain ⟨converted, hconverted, -, -⟩ := convert_answers h hr.account
    (r.account.currency, plan.baseCurrency) (by simp) hallocated hcarried
  refine ⟨_, bind_ok.mpr ⟨converted, hconverted, rfl⟩, rfl, rfl, ⟨hr.account, ?_⟩, hr.nonneg,
    hallocated, ⟨n, hfloor⟩, hfloor.trans_le hwithin, hle⟩
  rw [hr.accountId, hr.placement]

/-! ## What accounts give -/

theorem account_eq (ha : a ∈ plan.accounts)
    (hr : r.account ∈ plan.accounts ∧ r.account.accountId = r.placement.accountId)
    (hid : r.placement.accountId = a.accountId) : r.account = a :=
  List.inj_on_of_nodup_map plan.accountsOnce hr.1 ha (hr.2.trans hid)

theorem sum_filter_le {f : CapitalRequest → Decimal}
    (h : List.Forall₂ (PlacementAllocation.Receives caller plan requests) l entries) (id : String)
    (hf : ∀ (r : CapitalRequest) (e : PlacementAllocation), e.Receives caller plan requests r →
      r.placement.accountId = id → e.allocated ≤ f r) :
    ((entries.filter fun e => e.placement.accountId = id).map (·.allocated)).sum ≤
      ((l.filter fun r => r.placement.accountId = id).map f).sum := by
  induction h with
  | nil => simp
  | @cons r e l entries hre _ ih =>
    by_cases hid : r.placement.accountId = id
    · have hide : e.placement.accountId = id := hre.placement ▸ hid
      simp only [List.filter_cons, hid, hide, decide_true, if_true, List.map_cons, List.sum_cons]
      exact add_le_add (hf r e hre hid) ih
    · have hide : e.placement.accountId ≠ id := hre.placement ▸ hid
      simp only [List.filter_cons, hid, hide, decide_false, Bool.false_eq_true, if_false]
      exact ih

/-- The requests of an account are asked for, up to the errors of their sum. -/
theorem requested_le_asked (caller : Rounding.Context 10 Decimal) (plan : CapitalAllocationPlan)
    {l : List CapitalRequest} (hl : ∀ r ∈ l, 0 ≤ r.requested)
    (hlength : l.length = plan.placements.length) (a : CapitalAccount) :
    ((l.filter fun r => r.placement.accountId = a.accountId).map (·.requested)).sum ≤
      CapitalAllocationPlan.asked caller l a *
        (1 + plan.placements.length * caller.error) := by
  have hnonneg : ∀ q ∈ (l.filter fun r => r.placement.accountId = a.accountId).map (·.requested),
      0 ≤ q := by
    intro q hq
    obtain ⟨r, hr, rfl⟩ := List.mem_map.mp hq
    exact hl r (List.mem_filter.mp hr).1
  have hsum := Context.sum_le (c := caller) (by decide) hnonneg
  have hcount : (((l.filter fun r => r.placement.accountId = a.accountId).map
      (·.requested)).length : ℚ) ≤ plan.placements.length := by
    rw [List.length_map, ← hlength]
    exact_mod_cast List.length_filter_le _ _
  refine hsum.trans (mul_le_mul_of_nonneg_left ?_ (Context.sum_nonneg (by decide) hnonneg))
  have hscaled := mul_le_mul_of_nonneg_right hcount caller.error_nonneg
  linarith

/-- **What an account's placements receive is at most what is free**, up to the errors. -/
theorem allocated_le
    (hentries : List.Forall₂ (PlacementAllocation.Receives caller plan requests) requests entries)
    (hlength : requests.length = plan.placements.length) (ha : a ∈ plan.accounts)
    (hfits : plan.oversubscription = .refuse → CapitalAllocationPlan.asked caller requests a ≤
      a.free) :
    ((entries.filter fun e => e.placement.accountId = a.accountId).map (·.allocated)).sum ≤
      a.free * ((1 + plan.placements.length * caller.error) * (1 + capitalError) ^ 2) := by
  have hasks : ∀ r ∈ requests, 0 ≤ r.requested := by
    intro r hr
    obtain ⟨e, -, hre⟩ := exists_of_forall₂ hentries hr
    exact hre.asks
  have hrequested := requested_le_asked caller plan hasks hlength a
  have hfree : 0 ≤ a.free := capital_nonneg (sub_nonneg.mpr a.committed)
  have herrors : (0 : ℚ) ≤ 1 + plan.placements.length * caller.error := by
    have := mul_nonneg (Nat.cast_nonneg (α := ℚ) plan.placements.length) caller.error_nonneg
    linarith
  have hone : (1 : ℚ) ≤ (1 + capitalError) ^ 2 :=
    one_le_pow₀ (by linarith [capitalError_pos])
  cases hscale : plan.scale caller requests a with
  | none =>
    have hle : CapitalAllocationPlan.asked caller requests a ≤ a.free := by
      by_contra hover
      cases hrule : plan.oversubscription with
      | refuse => exact hover (hfits hrule)
      | proRata =>
        rw [CapitalAllocationPlan.scale, if_neg hover, hrule] at hscale
        cases hscale
    calc ((entries.filter fun e => e.placement.accountId = a.accountId).map (·.allocated)).sum
        ≤ ((requests.filter fun r => r.placement.accountId = a.accountId).map
            (·.requested)).sum :=
          sum_filter_le hentries a.accountId fun r e hre _ => hre.within.trans hre.atMost
      _ ≤ CapitalAllocationPlan.asked caller requests a *
            (1 + plan.placements.length * caller.error) := hrequested
      _ ≤ a.free * (1 + plan.placements.length * caller.error) :=
          mul_le_mul_of_nonneg_right hle herrors
      _ ≤ a.free * ((1 + plan.placements.length * caller.error) * (1 + capitalError) ^ 2) :=
          mul_le_mul_of_nonneg_left (le_mul_of_one_le_right herrors hone) hfree
  | some scale =>
    obtain ⟨-, hless, rfl⟩ := scale_eq_some hscale
    have hasked := hfree.trans_lt hless
    set asked := CapitalAllocationPlan.asked caller requests a
    have hratio : 0 ≤ a.free / asked := div_nonneg hfree hasked.le
    have hpart : ∀ (r : CapitalRequest) (e : PlacementAllocation),
        e.Receives caller plan requests r → r.placement.accountId = a.accountId →
          e.allocated ≤ r.requested * (a.free / asked * (1 + capitalError) ^ 2) := by
      intro r e hre hid
      have hwithin := hre.within
      rw [CapitalAllocationPlan.scaled, account_eq ha hre.account hid, hscale] at hwithin
      have hscaled := capital_le_mul (mul_nonneg hre.asks (capital_nonneg hratio))
      have hround := mul_le_mul_of_nonneg_left (capital_le_mul hratio) hre.asks
      have hmore := mul_le_mul_of_nonneg_right hround
        (by linarith [capitalError_pos] : (0 : ℚ) ≤ 1 + capitalError)
      calc e.allocated ≤ capitalContext.round (r.requested * capitalContext.round (a.free / asked)) :=
            hwithin
        _ ≤ r.requested * capitalContext.round (a.free / asked) * (1 + capitalError) := hscaled
        _ ≤ r.requested * (a.free / asked * (1 + capitalError)) * (1 + capitalError) := hmore
        _ = r.requested * (a.free / asked * (1 + capitalError) ^ 2) := by ring
    calc ((entries.filter fun e => e.placement.accountId = a.accountId).map (·.allocated)).sum
        ≤ ((requests.filter fun r => r.placement.accountId = a.accountId).map
            fun r => r.requested * (a.free / asked * (1 + capitalError) ^ 2)).sum :=
          sum_filter_le hentries a.accountId hpart
      _ = ((requests.filter fun r => r.placement.accountId = a.accountId).map (·.requested)).sum *
            (a.free / asked * (1 + capitalError) ^ 2) := List.sum_map_mul_right _ _ _
      _ ≤ asked * (1 + plan.placements.length * caller.error) *
            (a.free / asked * (1 + capitalError) ^ 2) :=
          mul_le_mul_of_nonneg_right hrequested (mul_nonneg hratio (by positivity))
      _ = a.free * ((1 + plan.placements.length * caller.error) * (1 + capitalError) ^ 2) := by
          field_simp

/-- **An account is reconciled exactly.** -/
theorem reconciled_answers (free : Decimal) (hplan : plan.Carried caller place)
    (hentries : List.Forall₂ (PlacementAllocation.Receives caller plan requests) requests entries)
    (hlength : requests.length = plan.placements.length) (ha : a ∈ plan.accounts)
    (hfits : plan.oversubscription = .refuse → CapitalAllocationPlan.asked caller requests a ≤
      a.free) :
    ∃ r, plan.reconciled (ε := ε) caller requests entries (a, free) = .ok r ∧ r.account = a ∧
      a.available = a.reserved + r.allocated + r.unallocated ∧
      r.allocated ≤ a.available - a.reserved ∧
      r.allocated = ((entries.filter fun e => e.placement.accountId = a.accountId).map
        (·.allocated)).sum := by
  set given := (entries.filter fun e => e.placement.accountId = a.accountId).map (·.allocated)
  obtain ⟨havailable, hreserved, hsmall⟩ := hplan.accounts a ha
  have hunit : (0 : ℚ) < ((10 : ℕ) : ℚ) ^ place := by positivity
  have hgiven : ∀ q ∈ given, 0 ≤ q ∧ OnGrid (((10 : ℕ) : ℚ) ^ place) q := by
    intro q hq
    obtain ⟨e, he, rfl⟩ := List.mem_map.mp hq
    obtain ⟨r, -, hre⟩ := exists_of_forall₂ hentries.flip (List.mem_filter.mp he).1
    exact ⟨hre.nonneg, hplan.granularity.trans hre.multiple⟩
  have hfree := hplan.free ha
  have hnonneg : 0 ≤ a.free := capital_nonneg (sub_nonneg.mpr a.committed)
  have hroom := hplan.room a ha
  rw [← hfree] at hroom
  have hallocated := allocated_le hentries hlength ha hfits
  -- the total is a whole number of the place, and less than one above what is free
  have hle : given.sum ≤ a.free := by
    refine (OnGrid.sum fun q hq => (hgiven q hq).2).le_of_lt_add hunit
      (hfree ▸ havailable.sub hreserved) ?_
    linarith
  have hdigits : a.free < ((10 : ℕ) : ℚ) ^ (place + caller.digits) := by
    have hten : ((10 : ℕ) : ℚ) ≠ 0 := by norm_num
    have hcount : (1 : ℚ) ≤ plan.placements.length := by
      exact_mod_cast List.length_pos_iff.mpr plan.somePlacement
    have herror : caller.error * ((10 : ℕ) : ℚ) ^ (caller.digits : ℤ) = 10 := by
      rw [Context.error, ← zpow_add₀ hten]
      norm_num
    have hsome : a.free * caller.error ≤ a.free *
        ((1 + plan.placements.length * caller.error) * (1 + capitalError) ^ 2 - 1) := by
      refine mul_le_mul_of_nonneg_left ?_ hnonneg
      have hpow : (1 : ℚ) ≤ (1 + capitalError) ^ 2 :=
        one_le_pow₀ (by linarith [capitalError_pos])
      have hmany := mul_le_mul_of_nonneg_right hcount caller.error_nonneg
      have herrors := caller.error_nonneg
      nlinarith
    have hbelow := mul_lt_mul_of_pos_right (hsome.trans_lt hroom)
      (zpow_pos (by norm_num) (caller.digits : ℤ) : (0 : ℚ) < ((10 : ℕ) : ℚ) ^ (caller.digits : ℤ))
    rw [mul_assoc, herror, ← zpow_add₀ hten] at hbelow
    linarith
  have hexact : CapitalAllocationPlan.allocatedTo caller entries a = given.sum :=
    Context.sum_exact hgiven (hle.trans_lt hdigits)
  have hleft : capitalContext.round (a.free - given.sum) = a.free - given.sum := by
    refine capitalContext.exact (m := place) ?_ ?_
    · exact (hfree ▸ havailable.sub hreserved : OnGrid _ a.free).sub
        (OnGrid.sum fun q hq => (hgiven q hq).2)
    · rw [abs_of_nonneg (sub_nonneg.mpr hle)]
      have hsum : 0 ≤ given.sum := List.sum_nonneg fun q hq => (hgiven q hq).1
      have hreserve := a.nonneg
      exact lt_of_le_of_lt (by linarith) hsmall
  refine ⟨⟨a, CapitalAllocationPlan.asked caller requests a, given.sum, a.free - given.sum,
    plan.scale caller requests a, free⟩, ?_, rfl, ?_, hfree ▸ hle, rfl⟩
  · unfold CapitalAllocationPlan.reconciled
    simp only [hexact, hleft]
    rw [if_neg (not_lt.mpr (sub_nonneg.mpr hle))]
  · rw [hfree]
    ring

end

open CapitalAllocationPlan in
theorem judged_allocated {caller : Rounding.Context 10 Decimal} {plan : CapitalAllocationPlan}
    {totalFree : Decimal} {funded : List (CapitalAccount × Decimal)}
    {requests : List CapitalRequest} {accounts : List AccountAllocation}
    {conversions : List CapitalConversion} (h : (plan.judged caller totalFree funded requests
      entries accounts conversions).status = .allocated) :
    (plan.judged caller totalFree funded requests entries accounts conversions).placements =
        some entries ∧
      (plan.judged caller totalFree funded requests entries accounts conversions).accounts =
        accounts := by
  revert h
  unfold judged
  dsimp only
  split_ifs
  · exact fun _ => ⟨rfl, rfl⟩
  · exact fun h => nomatch h

def defaultContext : Rounding.Context 10 Decimal := .standard

def noConversion : CurrencyConverter Unit := fun _ _ _ _ => .error ()

def trendPlacement : CapitalPlacement := ⟨"trend", "equities", "main"⟩
def carryPlacement : CapitalPlacement := ⟨"carry", "futures", "main"⟩

def oversubscribedPlan : CapitalAllocationPlan where
  baseCurrency := "USD"
  asOf := 0
  accounts := [{ accountId := "main", brokerId := "broker", currency := "USD", available := 110,
                 reserved := 10 }]
  placements := [trendPlacement, carryPlacement]
  rule := .fixedAmounts fun p => if p = trendPlacement then 80 else 40
  limits := []
  oversubscription := .proRata
  granularity := 1 / 100
  nonneg := by
    intro p hp
    dsimp only
    split_ifs <;> norm_num
  positive := by norm_num

/-- A request just below twice a granularity of two. -/
def nearlyFour : CapitalAllocationPlan where
  baseCurrency := "USD"
  asOf := 0
  accounts := [{ accountId := "main", brokerId := "broker", currency := "USD", available := 10,
                 reserved := 0 }]
  placements := [trendPlacement]
  rule := .fixedAmounts fun _ => 3999999999999999999999999999 / 10 ^ 27
  limits := []
  oversubscription := .refuse
  granularity := 2
  nonneg := fun _ _ => by norm_num
  positive := by norm_num

end AlphaLab
