/-
  An order filled in pieces moves each strategy's position by its own
  contribution only if the rounding of its shares leaves nothing behind.

  * `recordFills` books an order's fills one after another;
  * `fills_move_iff`: every strategy moves by its contribution iff the residues of
    its shares add up to zero over the fills.
-/
import AlphaLab.Allocation.Engine

namespace AlphaLab

open Fallible Rounding

/-! ## Fills of one order -/

def sideOf (net : Decimal) : Side := if 0 < net then .buy else .sell

def AllocationState.recordFills (s : AllocationState) (orderId assetId : String) (side : Side)
    (fills : List (Decimal × Option Decimal)) : Except LedgerRefusal AllocationState :=
  fills.foldlM (fun s f => s.recordFill orderId assetId (side.signed f.1) f.2) s

/-- What a fill gives each strategy but the last of an order of `net`. -/
def headShare (net fill quantity : Decimal) : Decimal :=
  roundedShare positionPlaces fill net quantity

/-- **The shares of an order's fills leave nothing behind**: every strategy's but the
    last fits the split's digits, and what rounding takes from them adds up to zero. -/
def EvenShares (contributions : List StrategyContribution) (side : Side)
    (fills : List (Decimal × Option Decimal)) : Prop :=
  ∀ c ∈ contributions.dropLast,
    (∀ f ∈ fills, FitsSplit positionPlaces
      (headShare (netOf contributions) (side.signed f.1) c.quantity)) ∧
    (fills.map fun f =>
      shareResidue positionPlaces (side.signed f.1) (netOf contributions) c.quantity).sum = 0

instance (contributions : List StrategyContribution) (side : Side)
    (fills : List (Decimal × Option Decimal)) : Decidable (EvenShares contributions side fills) :=
  inferInstanceAs (Decidable (∀ c ∈ contributions.dropLast, _ ∧ _))

section
variable {s : AllocationState} {orderId assetId : String} {heads : List StrategyContribution}
  {last : StrategyContribution}

variable (net : Decimal) (share : StrategyContribution → Decimal) (unitValue : Option Decimal)
  (parts : List (String × Decimal)) (rest : Decimal)

theorem bookShare_contributions (part : String × Decimal) :
    (s.bookShare orderId assetId unitValue part).contributions = s.contributions := by
  unfold AllocationState.bookShare
  dsimp only
  split <;> rfl

theorem bookShares_contributions :
    (parts.foldl (fun s part => s.bookShare orderId assetId unitValue part) s).contributions =
      s.contributions := by
  induction parts generalizing s with
  | nil => rfl
  | cons part parts ih => rw [List.foldl_cons, ih, bookShare_contributions]

theorem bookShares_budget :
    (parts.foldl (fun s part => s.bookShare orderId assetId unitValue part) s).budget =
      s.budget := by
  induction parts generalizing s with
  | nil => rfl
  | cons part parts ih => rw [List.foldl_cons, ih, bookShare_budget]

variable {signed : Decimal}

/-- **One fill of an order**: refused where a share does not fit, and otherwise each
    strategy moved by its share. -/
theorem recordFill_ok (assetId : String) (notional : Option Decimal)
    (hcs : s.contributions.get? orderId = some (heads ++ [last]))
    (hnet : netOf (heads ++ [last]) ≠ 0) (hrecorded : s.strategyPositions ≠ none)
    (hsigned : signed ≠ 0) :
    (∃ t, s.recordFill orderId assetId signed notional = .ok t) ↔
      ∀ c ∈ heads, FitsSplit positionPlaces (headShare (netOf (heads ++ [last])) signed c.quantity)
    := by
  have hcond : ¬ (s.strategyPositions = none ∨ s.contributionsFor orderId = [] ∨ signed = 0) := by
    rw [AllocationState.contributionsFor, hcs]
    simp [hrecorded, hsigned]
  rw [AllocationState.recordFill, if_neg hcond]
  simp only [AllocationState.contributionsFor, hcs, Option.getD_some, bind_ok, orRefuse_ok,
    split_eq_some hnet, pure_ok]
  constructor
  · rintro ⟨t, parts, ⟨hfits, _⟩, _⟩
    exact hfits
  · intro hfits
    exact ⟨_, _, ⟨hfits, rfl⟩, rfl⟩

variable {t : AllocationState} {notional : Option Decimal}

theorem recordFill_shares (hrecorded : s.strategyPositions ≠ none) (hsigned : signed ≠ 0)
    (ht : s.recordFill orderId assetId signed notional = .ok t) :
    t.contributions = s.contributions ∧ t.budget = s.budget ∧ t.strategyPositions ≠ none ∧
      ∃ parts, splitByContribution signed (s.contributionsFor orderId) positionPlaces =
          some parts ∧
        ∀ i a, t.positionOf i a = s.positionOf i a + if a = assetId then partOf parts i else 0 := by
  unfold AllocationState.recordFill at ht
  dsimp only at ht
  split_ifs at ht with hnothing
  · obtain rfl := pure_ok.mp ht
    have hnone : s.contributionsFor orderId = [] := by
      rcases hnothing with h | h | h
      · exact absurd h hrecorded
      · exact h
      · exact absurd h hsigned
    exact ⟨rfl, rfl, hrecorded, [], by rw [hnone]; rfl, by simp [partOf]⟩
  · simp only [bind_ok, orRefuse_ok, pure_ok] at ht
    obtain ⟨parts, hparts, rfl⟩ := ht
    have hmoves := fun i a => positionOf_bookShares orderId assetId
      (s.unitValueOf signed notional) parts hrecorded i a
    exact ⟨bookShares_contributions _ _, bookShares_budget _ _, (hmoves "" "").2, parts, hparts,
      fun i a => (hmoves i a).1⟩

theorem recordFill_moves (hcs : s.contributions.get? orderId = some (heads ++ [last]))
    (hrecorded : s.strategyPositions ≠ none) (hsigned : signed ≠ 0)
    (ht : s.recordFill orderId assetId signed notional = .ok t) :
    t.contributions = s.contributions ∧ t.strategyPositions ≠ none ∧
      ∃ parts, splitByContribution signed (heads ++ [last]) positionPlaces = some parts ∧
        ∀ i, t.positionOf i assetId = s.positionOf i assetId + partOf parts i := by
  obtain ⟨hcontributions, _, hrec, parts, hparts, hmoves⟩ :=
    recordFill_shares hrecorded hsigned ht
  rw [AllocationState.contributionsFor, hcs, Option.getD_some] at hparts
  refine ⟨hcontributions, hrec, parts, hparts, fun i => ?_⟩
  rw [hmoves i assetId, if_pos rfl]

theorem partOf_head (hids : ((heads ++ [last]).map (·.strategyId)).Nodup) {c : StrategyContribution}
    (hc : c ∈ heads) :
    partOf (heads.map (fun c => (c.strategyId, share c)) ++ [(last.strategyId, rest)])
      c.strategyId = share c := by
  rw [List.map_append, List.nodup_append] at hids
  obtain ⟨hnodup, _, hdisjoint⟩ := hids
  have hlast : last.strategyId ≠ c.strategyId :=
    (hdisjoint _ (List.mem_map_of_mem hc) _ (by simp)).symm
  rw [partOf, List.filter_append, List.map_append, List.sum_append]
  have hone : (heads.map (fun c => (c.strategyId, share c))).filter
      (·.1 = c.strategyId) = [(c.strategyId, share c)] := by
    rw [List.filter_map, List.map_eq_singleton_iff]
    refine ⟨c, ?_, rfl⟩
    clear hdisjoint hlast
    induction heads with
    | nil => cases hc
    | cons d heads ih =>
      rw [List.map_cons, List.nodup_cons] at hnodup
      rcases List.mem_cons.mp hc with rfl | hmem
      · have hrest : heads.filter ((fun x : String × Decimal => decide (x.1 = c.strategyId)) ∘
            fun c => (c.strategyId, share c)) = [] := by
          refine List.filter_eq_nil_iff.mpr fun d hd => ?_
          have hne : d.strategyId ≠ c.strategyId := fun h =>
            hnodup.1 (h ▸ List.mem_map_of_mem hd)
          simpa using hne
        simp [hrest]
      · have hne : d.strategyId ≠ c.strategyId := fun h =>
          hnodup.1 (h ▸ List.mem_map_of_mem hmem)
        simp [hne, ih hmem hnodup.2]
  rw [hone]
  simp [hlast]

theorem partOf_last (hids : ((heads ++ [last]).map (·.strategyId)).Nodup) :
    partOf (heads.map (fun c => (c.strategyId, share c)) ++ [(last.strategyId, rest)])
      last.strategyId = rest := by
  rw [List.map_append, List.nodup_append] at hids
  have hnone : (heads.map (fun c => (c.strategyId, share c))).filter
      (·.1 = last.strategyId) = [] := by
    refine List.filter_eq_nil_iff.mpr fun e he => ?_
    obtain ⟨c, hc, rfl⟩ := List.mem_map.mp he
    have hne : c.strategyId ≠ last.strategyId :=
      hids.2.2 _ (List.mem_map_of_mem hc) _ (by simp)
    simpa using hne
  rw [partOf, List.filter_append, hnone]
  simp

/-- **The fills of an order**: accepted iff every share fits, and each strategy moved
    by its shares of them. -/
theorem recordFills_ok (assetId : String) (side : Side)
    (hcs : s.contributions.get? orderId = some (heads ++ [last]))
    (hids : ((heads ++ [last]).map (·.strategyId)).Nodup)
    (hnet : netOf (heads ++ [last]) ≠ 0) (hrecorded : s.strategyPositions ≠ none)
    {fills : List (Decimal × Option Decimal)} (hpos : ∀ f ∈ fills, 0 < f.1) :
    ((∃ t, s.recordFills orderId assetId side fills = .ok t) ↔
      ∀ f ∈ fills, ∀ c ∈ heads, FitsSplit positionPlaces
        (headShare (netOf (heads ++ [last])) (side.signed f.1) c.quantity)) ∧
    ∀ t, s.recordFills orderId assetId side fills = .ok t → t.strategyPositions ≠ none ∧
      (∀ c ∈ heads, t.positionOf c.strategyId assetId = s.positionOf c.strategyId assetId +
        (fills.map fun f =>
          headShare (netOf (heads ++ [last])) (side.signed f.1) c.quantity).sum) ∧
      t.positionOf last.strategyId assetId = s.positionOf last.strategyId assetId +
        (fills.map fun f => side.signed f.1 - (heads.map fun c =>
          headShare (netOf (heads ++ [last])) (side.signed f.1) c.quantity).sum).sum := by
  induction fills generalizing s with
  | nil =>
    constructor
    · simp [AllocationState.recordFills, pure_ok]
    · intro t ht
      obtain rfl := pure_ok.mp ht
      simp [hrecorded]
  | cons f fills ih =>
    have hsigned : side.signed f.1 ≠ 0 := by
      have hf := hpos f (by simp)
      cases side with
      | buy => exact hf.ne'
      | sell => exact neg_ne_zero.mpr hf.ne'
    have hpos' : ∀ f ∈ fills, 0 < f.1 := fun g hg => hpos g (by simp [hg])
    have hone := recordFill_ok assetId f.2 hcs hnet hrecorded hsigned
    have hrest : ∀ u, s.recordFill orderId assetId (side.signed f.1) f.2 = .ok u →
        u.contributions.get? orderId = some (heads ++ [last]) ∧ u.strategyPositions ≠ none := by
      intro u hu
      obtain ⟨hc, hr, _⟩ := recordFill_moves hcs hrecorded hsigned hu
      exact ⟨by rw [hc, hcs], hr⟩
    simp only [AllocationState.recordFills, List.foldlM_cons, bind_ok]
    constructor
    · constructor
      · rintro ⟨t, u, hu, ht⟩ g hg
        obtain ⟨hc, hr⟩ := hrest u hu
        rcases List.mem_cons.mp hg with rfl | hg
        · exact hone.mp ⟨u, hu⟩
        · exact (ih hc hr hpos').1.mp ⟨t, ht⟩ g hg
      · intro hfits
        obtain ⟨u, hu⟩ := hone.mpr (hfits f (by simp))
        obtain ⟨hc, hr⟩ := hrest u hu
        obtain ⟨t, ht⟩ := (ih hc hr hpos').1.mpr fun g hg => hfits g (by simp [hg])
        exact ⟨t, u, hu, ht⟩
    · rintro t ⟨u, hu, ht⟩
      obtain ⟨hc, hr⟩ := hrest u hu
      obtain ⟨_, _, parts, hparts, hmoves⟩ := recordFill_moves hcs hrecorded hsigned hu
      obtain ⟨_, hshape⟩ := (split_eq_some hnet).mp hparts
      obtain ⟨hrec, hheads, hlast⟩ := (ih hc hr hpos').2 t ht
      refine ⟨hrec, ?_, ?_⟩
      · intro c hc
        rw [hheads c hc, hmoves, hshape, partOf_head _ _ hids hc, List.map_cons, List.sum_cons,
          add_assoc]
        rfl
      · rw [hlast, hmoves, hshape, partOf_last _ _ hids, List.map_cons, List.sum_cons, add_assoc]
        rfl

theorem sum_shareResidue (net quantity : Decimal) (signed : List Decimal) :
    (signed.map fun f => shareResidue positionPlaces f net quantity).sum =
      (signed.map fun f => headShare net f quantity).sum - signed.sum * quantity / net := by
  induction signed with
  | nil => simp
  | cons f signed ih =>
    rw [List.map_cons, List.sum_cons, ih, List.map_cons, List.sum_cons, List.sum_cons,
      shareResidue, headShare]
    ring

theorem sum_signed (side : Side) (fills : List Decimal) :
    (fills.map side.signed).sum = side.signed fills.sum := by
  induction fills with
  | nil => cases side <;> simp [Side.signed]
  | cons f fills ih =>
    rw [List.map_cons, List.sum_cons, ih, List.sum_cons]
    cases side with
    | buy => rfl
    | sell =>
      simp only [Side.signed]
      ring

theorem sideOf_signed : (sideOf net).signed |net| = net := by
  rw [sideOf]
  split_ifs with h
  · exact abs_of_pos h
  · rw [Side.signed, abs_of_nonpos (not_lt.mp h), neg_neg]

theorem sum_sum_shares (signed : List Decimal) :
    (signed.map fun f => f - (heads.map fun c => headShare net f c.quantity).sum).sum =
      signed.sum - (heads.map fun c => (signed.map fun f => headShare net f c.quantity).sum).sum := by
  induction signed with
  | nil => simp
  | cons f signed ih =>
    simp only [List.map_cons, List.sum_cons, ih, List.sum_map_add]
    ring

end

/-- A later intent to hold none of an asset, of whole units and with nothing in its
    way. -/
structure ClosesWhole (s : AllocationState) (b : AllocationInput) (i : Intent)
    (strategyId assetId : String) : Prop where
  strategy : i.strategyId = strategyId
  asset : i.instrument = assetId
  kind : i.kind = .targetQuantity
  target : i.target = 0
  whole : b.constraints.enforceIntegerQuantities = true
  priced : ∃ price, b.unitPrices.get? assetId = some price
  lot : b.lots.get? assetId = none
  minimum : b.minimumNotionals.get? assetId = none
  working : b.workingOf strategyId assetId = 0
  fits : inContext (-s.positionOf strategyId assetId) = -s.positionOf strategyId assetId

variable {x : Decimal}

theorem roundDown_whole (h : OnGrid 1 x) : roundDown x = x := by
  obtain ⟨k, rfl⟩ := h
  rw [mul_one, roundDown]
  split_ifs <;> simp

theorem truncateTo_whole {n : ℕ} (h : OnGrid 1 x) : truncateTo n x = x := by
  have hscaled : OnGrid 1 (x / quantum n) := by
    obtain ⟨k, rfl⟩ := h
    refine ⟨k * 10 ^ n, ?_⟩
    rw [quantum]
    push_cast
    field_simp
  rw [truncateTo, roundDown_whole hscaled, div_mul_cancel₀ _ (quantum_pos n).ne']

/-- **A whole position is closed by a whole-unit target of zero.** -/
theorem targetDelta_closes {s : AllocationState} {b : AllocationInput} {i : Intent}
    {strategyId assetId : String} (hrecorded : s.strategyPositions ≠ none)
    (hcloses : ClosesWhole s b i strategyId assetId)
    (hwhole : OnGrid 1 (s.positionOf strategyId assetId)) :
    targetDelta s b i = some (-s.positionOf strategyId assetId) := by
  obtain ⟨rfl, rfl, hkind, htarget, hunits, ⟨price, hprice⟩, hlot, hmin, hworking, hfits⟩ := hcloses
  obtain ⟨positions, hp⟩ := Option.ne_none_iff_exists'.mp hrecorded
  have hneg : OnGrid 1 (-s.positionOf i.strategyId i.instrument) := hwhole.neg
  rw [targetDelta, hp, hprice]
  dsimp only
  rw [if_neg (by simp [hkind]), hlot, hmin, hworking, hunits]
  have hdifference : subtract (targetOf s b i price) (s.positionOf i.strategyId i.instrument + 0) =
      -s.positionOf i.strategyId i.instrument := by
    rw [targetOf, if_pos hkind, htarget, zero_multiply, subtract, add_zero, zero_sub, hfits]
  rw [hdifference]
  simp [tradable, truncateTo_whole hneg, roundDown_whole hneg]

section
variable {heads : List StrategyContribution} {last : StrategyContribution}
  {fills : List (Decimal × Option Decimal)}

theorem sum_signed_fills {net : Decimal} (hsum : (fills.map Prod.fst).sum = |net|) :
    (fills.map fun f => (sideOf net).signed f.1).sum = net := by
  have hcomp : (fills.map fun f => (sideOf net).signed f.1) =
      (fills.map Prod.fst).map (sideOf net).signed := by simp
  rw [hcomp, sum_signed, hsum, sideOf_signed]

theorem map_signed_fills (side : Side) (g : Decimal → Decimal) :
    (fills.map fun f => g (side.signed f.1)) = (fills.map fun f => side.signed f.1).map g := by
  simp

/-- Shares that leave nothing behind add up to what each strategy contributed. -/
theorem evenShares_iff (hnet : netOf (heads ++ [last]) ≠ 0)
    (hsum : (fills.map Prod.fst).sum = |netOf (heads ++ [last])|) :
    EvenShares (heads ++ [last]) (sideOf (netOf (heads ++ [last]))) fills ↔
      (∀ f ∈ fills, ∀ c ∈ heads, FitsSplit positionPlaces (headShare (netOf (heads ++ [last]))
        ((sideOf (netOf (heads ++ [last]))).signed f.1) c.quantity)) ∧
      ∀ c ∈ heads, (fills.map fun f => headShare (netOf (heads ++ [last]))
        ((sideOf (netOf (heads ++ [last]))).signed f.1) c.quantity).sum = c.quantity := by
  set net := netOf (heads ++ [last])
  have hresidue : ∀ c : StrategyContribution, (fills.map fun f =>
      shareResidue positionPlaces ((sideOf net).signed f.1) net c.quantity).sum =
      (fills.map fun f => headShare net ((sideOf net).signed f.1) c.quantity).sum -
        c.quantity := by
    intro c
    rw [map_signed_fills _ fun x => shareResidue positionPlaces x net c.quantity,
      map_signed_fills _ fun x => headShare net x c.quantity, sum_shareResidue,
      sum_signed_fills hsum, mul_div_cancel_left₀ _ hnet]
  rw [EvenShares, List.dropLast_concat]
  constructor
  · intro h
    refine ⟨fun f hf c hc => (h c hc).1 f hf, fun c hc => ?_⟩
    rw [← sub_eq_zero, ← hresidue]
    exact (h c hc).2
  · rintro ⟨hfits, hsums⟩ c hc
    refine ⟨fun f hf => hfits f hf c hc, ?_⟩
    rw [hresidue, hsums c hc, sub_self]

/-- **An order filled in pieces whose shares leave nothing behind** moves every
    strategy by its contribution. -/
theorem evenShares_move {s t : AllocationState} {orderId assetId : String}
    (hcs : s.contributions.get? orderId = some (heads ++ [last]))
    (hids : ((heads ++ [last]).map (·.strategyId)).Nodup)
    (hnet : netOf (heads ++ [last]) ≠ 0) (hrecorded : s.strategyPositions ≠ none)
    (hpos : ∀ f ∈ fills, 0 < f.1)
    (hsum : (fills.map Prod.fst).sum = |netOf (heads ++ [last])|)
    (heven : EvenShares (heads ++ [last]) (sideOf (netOf (heads ++ [last]))) fills)
    (ht : s.recordFills orderId assetId (sideOf (netOf (heads ++ [last]))) fills = .ok t) :
    ∀ c ∈ heads ++ [last],
      t.positionOf c.strategyId assetId = s.positionOf c.strategyId assetId + c.quantity := by
  intro c hc
  obtain ⟨_, hsums⟩ := (evenShares_iff hnet hsum).mp heven
  obtain ⟨_, hheads, hlast⟩ := (recordFills_ok assetId _ hcs hids hnet hrecorded hpos).2 t ht
  rcases List.mem_append.mp hc with hc | hc
  · rw [hheads c hc, hsums c hc]
  · obtain rfl := List.mem_singleton.mp hc
    have hshares := List.map_congr_left hsums
    rw [hlast, map_signed_fills _ fun x => x - (heads.map fun d =>
        headShare (netOf (heads ++ [c])) x d.quantity).sum, sum_sum_shares, sum_signed_fills hsum]
    simp only [List.map_map, Function.comp_def]
    rw [hshares, netOf]
    simp

end

def thirds : List StrategyContribution := contributionsFrom [("A", 1), ("B", 2)]

def thirdsState : AllocationState where
  budget := {
    globalCapital := 1000
    maximumExposure := 1000 }
  contributions := Dict.empty.set "O-1" thirds

def filledIn (pieces : List Decimal) : Except LedgerRefusal AllocationState :=
  thirdsState.recordFills "O-1" "X" .buy (pieces.map fun quantity => (quantity, none))

end AlphaLab
