/-
  How far a matched volume goes down the tiers of an auction's side.

  * `FitTogether m l`: the amounts of `l` are whole numbers of one power of ten and together need
    no more digits than the context has, so that sums of them are exact (`sumInContext_fits`).
  * `given_sum_iff`: where the amounts fit, the orders of a side are given no more than the
    volume iff those of the tier where it runs out are given no more than what is left there
    and what was published ahead of it.
-/
import AlphaLab.Simulation.Auction

namespace AlphaLab

open Rounding

/-! ## Sums that fit -/

/-- The unit of the `m`-th decimal place. -/
def placeUnit (m : ℤ) : Decimal := ((10 : ℕ) : ℚ) ^ m

/-- No amount is negative, each is a whole number of the unit of one decimal place, and their
    sum needs no digit that the context does not have. -/
structure FitTogether (m : ℤ) (l : List Decimal) : Prop where
  nonneg : ∀ q ∈ l, 0 ≤ q
  onPlace : ∀ q ∈ l, OnGrid (placeUnit m) q
  small : l.sum < placeUnit (m + accountingPrecision)

theorem inContext_of_place {m : ℤ} {x : Decimal} (hplace : OnGrid (placeUnit m) x) (hx : 0 ≤ x)
    (hsmall : x < placeUnit (m + accountingPrecision)) : inContext x = x := by
  refine roundSig_of_onGrid (by decide) hplace ?_
  rwa [abs_of_nonneg hx]

namespace FitTogether

variable {m : ℤ} {l l' : List Decimal}

theorem sum_nonneg (h : FitTogether m l) : 0 ≤ l.sum := List.sum_nonneg h.nonneg

theorem perm (h : FitTogether m l) (hperm : l.Perm l') : FitTogether m l' where
  nonneg q hq := h.nonneg q (hperm.mem_iff.mpr hq)
  onPlace q hq := h.onPlace q (hperm.mem_iff.mpr hq)
  small := by
    rw [← hperm.sum_eq]
    exact h.small

theorem sublist (h : FitTogether m l) (hsub : l'.Sublist l) : FitTogether m l' where
  nonneg q hq := h.nonneg q (hsub.subset hq)
  onPlace q hq := h.onPlace q (hsub.subset hq)
  small := lt_of_le_of_lt (hsub.sum_le_sum h.nonneg) h.small

theorem foldl_add {a : Decimal} (h : FitTogether m (a :: l)) : l.foldl add a = a + l.sum := by
  induction l generalizing a with
  | nil => simp
  | cons q l ih =>
    have hsum : (a :: q :: l).sum = ((a + q) :: l).sum := by
      simp only [List.sum_cons]
      ring
    have hnext : FitTogether m ((a + q) :: l) := by
      refine ⟨?_, ?_, hsum ▸ h.small⟩
      · intro r hr
        rcases List.mem_cons.mp hr with rfl | hr
        · exact add_nonneg (h.nonneg a (by simp)) (h.nonneg q (by simp))
        · exact h.nonneg r (by simp [hr])
      · intro r hr
        rcases List.mem_cons.mp hr with rfl | hr
        · exact (h.onPlace a (by simp)).add (h.onPlace q (by simp))
        · exact h.onPlace r (by simp [hr])
    have hle : a + q ≤ ((a + q) :: l).sum := by
      rw [List.sum_cons]
      linarith [List.sum_nonneg fun r hr => hnext.nonneg r (List.mem_cons_of_mem _ hr)]
    have hexact : add a q = a + q := inContext_of_place (hnext.onPlace _ (by simp))
      (hnext.nonneg _ (by simp)) (lt_of_le_of_lt hle hnext.small)
    rw [List.foldl_cons, hexact, ih hnext, List.sum_cons, add_assoc]

end FitTogether

theorem sumInContext_fits {m : ℤ} {l : List Decimal} (h : FitTogether m l) :
    sumInContext l = l.sum := by
  have hzero : FitTogether m (0 :: l) := by
    refine ⟨?_, ?_, by simpa using h.small⟩
    · intro q hq
      rcases List.mem_cons.mp hq with rfl | hq
      exacts [le_refl _, h.nonneg q hq]
    · intro q hq
      rcases List.mem_cons.mp hq with rfl | hq
      exacts [onGrid_zero _, h.onPlace q hq]
  rw [sumInContext, hzero.foldl_add, zero_add]

theorem abs_sum_le (l : List Decimal) : |l.sum| ≤ (l.map (|·|)).sum := by
  induction l with
  | nil => simp
  | cons q l ih =>
    rw [List.sum_cons, List.map_cons, List.sum_cons]
    exact (abs_add_le _ _).trans (add_le_add_right ih _)

theorem sumInContext_carried {place : ℤ} {l : List Decimal}
    (hplace : ∀ q ∈ l, OnGrid (placeUnit place) q)
    (hsmall : (l.map (|·|)).sum < placeUnit (place + accountingPrecision)) :
    sumInContext l = l.sum := by
  have hfold : ∀ (l : List Decimal) (a : Decimal), OnGrid (placeUnit place) a →
      (∀ q ∈ l, OnGrid (placeUnit place) q) →
      |a| + (l.map (|·|)).sum < placeUnit (place + accountingPrecision) →
      l.foldl add a = a + l.sum := by
    intro l
    induction l with
    | nil => simp
    | cons q l ih =>
      intro a ha hl hfits
      rw [List.map_cons, List.sum_cons] at hfits
      have hrest : 0 ≤ (l.map (|·|)).sum := by
        refine List.sum_nonneg fun x hx => ?_
        obtain ⟨y, -, rfl⟩ := List.mem_map.mp hx
        exact abs_nonneg y
      have hgrid := ha.add (hl q (by simp))
      have habs := abs_add_le a q
      have hexact : add a q = a + q :=
        roundSig_of_onGrid (by decide) hgrid
          (lt_of_le_of_lt (habs.trans (by linarith)) hfits)
      rw [List.foldl_cons, hexact, ih _ hgrid (fun r hr => hl r (by simp [hr])) (by linarith),
        List.sum_cons, add_assoc]
  rw [sumInContext, hfold l 0 (onGrid_zero _) hplace (by simpa using hsmall), zero_add]

/-! ## Coverage -/

/-- What a side publishes at a price, and the run's orders there. -/
abbrev Tier := Decimal × List Order

def Tier.wanted (tier : Tier) : List Decimal := tier.2.map (·.remainingQuantity)

def Tier.standing (tier : Tier) : Decimal := add tier.1 (sumInContext tier.wanted)

/-- The tier at which a volume runs out, and what is left of the volume there. -/
structure Margin where
  left : Decimal
  tier : Tier

def coverage : Decimal → List Tier → List Tier × Option Margin
  | _, [] => ([], none)
  | left, tier :: tiers =>
    if tier.standing ≤ left then
      let rest := coverage (subtract left tier.standing) tiers
      (tier :: rest.1, rest.2)
    else ([], some ⟨left, tier⟩)

def sharesByTime (inStep : Decimal → Decimal) : Decimal → List Order → List (String × Decimal)
  | _, [] => []
  | share, o :: orders =>
    let take := inStep (min o.remainingQuantity share)
    (o.orderId, take) :: sharesByTime inStep (subtract share take) orders

def Margin.shares (inStep : Decimal → Decimal) (priority : AuctionPriority) (margin : Margin) :
    List (String × Decimal) :=
  match priority with
  | .publishedFirst =>
    sharesByTime inStep (max 0 (subtract margin.left margin.tier.1)) margin.tier.2
  | .proRata => margin.tier.2.map fun o => (o.orderId,
      inStep (divide (multiply o.remainingQuantity margin.left) margin.tier.standing))

def filledTiers (tiers : List Tier) : List (String × Decimal) :=
  tiers.flatMap fun tier => tier.2.map fun o => (o.orderId, o.remainingQuantity)

def given (inStep : Decimal → Decimal) (priority : AuctionPriority) (volume : Decimal)
    (tiers : List Tier) : List (String × Decimal) :=
  filledTiers (coverage volume tiers).1 ++
    (coverage volume tiers).2.elim [] (·.shares inStep priority)

theorem coverage_covers {left : Decimal} {tier : Tier} {tiers : List Tier}
    (h : tier.standing ≤ left) : coverage left (tier :: tiers) =
      (tier :: (coverage (subtract left tier.standing) tiers).1,
        (coverage (subtract left tier.standing) tiers).2) := by
  rw [coverage, if_pos h]

theorem coverage_runsOut {left : Decimal} {tier : Tier} {tiers : List Tier}
    (h : ¬ tier.standing ≤ left) : coverage left (tier :: tiers) = ([], some ⟨left, tier⟩) := by
  rw [coverage, if_neg h]

section
variable (inStep : Decimal → Decimal) (priority : AuctionPriority) {left : Decimal} {tier : Tier}
  {tiers : List Tier}

theorem given_covers (h : tier.standing ≤ left) : given inStep priority left (tier :: tiers) =
    (tier.2.map fun o => (o.orderId, o.remainingQuantity)) ++
      given inStep priority (subtract left tier.standing) tiers := by
  rw [given, coverage_covers h, given, filledTiers, List.flatMap_cons, List.append_assoc]
  rfl

theorem given_runsOut (h : ¬ tier.standing ≤ left) :
    given inStep priority left (tier :: tiers) = Margin.shares inStep priority ⟨left, tier⟩ := by
  rw [given, coverage_runsOut h]
  rfl

end

theorem rationByTime_eq (inStep : Decimal → Decimal) (share : Decimal) (orders : List Order)
    (allotted : Allotment) :
    rationByTime inStep share orders allotted =
      allotted.setAll (sharesByTime inStep share orders) := by
  unfold rationByTime
  induction orders generalizing share allotted with
  | nil => rfl
  | cons o orders ih =>
    rw [List.foldl_cons, ih]
    rfl

theorem rationProRata_eq (inStep : Decimal → Decimal) (left standing : Decimal)
    (orders : List Order) (allotted : Allotment) :
    rationProRata inStep left standing orders allotted =
      allotted.setAll (orders.map fun o => (o.orderId,
        inStep (divide (multiply o.remainingQuantity left) standing))) := by
  rw [rationProRata, Dict.setAll, List.foldl_map]

/-- **What a side's tiers are allotted** is what their orders are given. -/
theorem allotTiers_eq (inStep : Decimal → Decimal) (priority : AuctionPriority)
    (volume : Decimal) (tiers : List Tier) (allotted : Allotment) :
    allotTiers inStep priority volume tiers allotted =
      allotted.setAll (given inStep priority volume tiers) := by
  induction tiers generalizing volume allotted with
  | nil => rfl
  | cons tier tiers ih =>
    obtain ⟨published, orders⟩ := tier
    by_cases hcovers : Tier.standing (published, orders) ≤ volume
    · have hallot : allotTiers inStep priority volume ((published, orders) :: tiers) allotted =
          allotTiers inStep priority (subtract volume (Tier.standing (published, orders))) tiers
            (orders.foldl (fun allotted o => allotted.set o.orderId o.remainingQuantity)
              allotted) :=
        if_pos hcovers
      have hfilled : orders.foldl (fun allotted o => Dict.set allotted o.orderId
            o.remainingQuantity) allotted =
          allotted.setAll (orders.map fun o => (o.orderId, o.remainingQuantity)) := by
        rw [Dict.setAll, List.foldl_map]
      rw [hallot, ih, hfilled, given_covers inStep priority hcovers]
      simp only [Dict.setAll, ← List.foldl_append]
    · rw [given_runsOut inStep priority hcovers]
      cases priority with
      | publishedFirst => exact (if_neg hcovers).trans (rationByTime_eq _ _ _ _)
      | proRata => exact (if_neg hcovers).trans (rationProRata_eq _ _ _ _ _)

theorem sharesByTime_ids (inStep : Decimal → Decimal) (share : Decimal) (orders : List Order) :
    (sharesByTime inStep share orders).map Prod.fst = orders.map (·.orderId) := by
  induction orders generalizing share with
  | nil => rfl
  | cons o orders ih => rw [sharesByTime, List.map_cons, List.map_cons, ih]

theorem Margin.shares_ids (inStep : Decimal → Decimal) (priority : AuctionPriority)
    (margin : Margin) : (margin.shares inStep priority).map Prod.fst =
      margin.tier.2.map (·.orderId) := by
  cases priority with
  | publishedFirst => exact sharesByTime_ids _ _ _
  | proRata =>
    rw [Margin.shares, List.map_map]
    rfl

theorem filledTiers_ids (tiers : List Tier) :
    (filledTiers tiers).map Prod.fst = (tiers.flatMap (·.2)).map (·.orderId) := by
  simp only [filledTiers, List.map_flatMap, List.map_map]
  rfl

theorem coverage_split (volume : Decimal) (tiers : List Tier) :
    ∃ worse, tiers = (coverage volume tiers).1 ++
      ((coverage volume tiers).2.elim [] fun margin => [margin.tier]) ++ worse := by
  induction tiers generalizing volume with
  | nil => exact ⟨[], rfl⟩
  | cons tier tiers ih =>
    by_cases hcovers : tier.standing ≤ volume
    · obtain ⟨worse, hworse⟩ := ih (subtract volume tier.standing)
      refine ⟨worse, ?_⟩
      rw [coverage_covers hcovers]
      exact congrArg (tier :: ·) hworse
    · exact ⟨tiers, by rw [coverage_runsOut hcovers]; rfl⟩

theorem given_ids_sublist (inStep : Decimal → Decimal) (priority : AuctionPriority)
    (volume : Decimal) (tiers : List Tier) :
    ((given inStep priority volume tiers).map Prod.fst).Sublist
      ((tiers.flatMap (·.2)).map (·.orderId)) := by
  obtain ⟨worse, hworse⟩ := coverage_split volume tiers
  conv_rhs => rw [hworse]
  rw [given, List.map_append, filledTiers_ids, List.flatMap_append, List.map_append,
    List.flatMap_append, List.map_append]
  refine (List.Sublist.refl _).trans (List.Sublist.trans ?_ (List.sublist_append_left _ _))
  cases (coverage volume tiers).2 with
  | none => simp
  | some margin => simp [Margin.shares_ids]

/-! ## What is left -/

def publishedIn (tiers : List Tier) : Decimal := (tiers.map Prod.fst).sum

def wantedIn (tiers : List Tier) : Decimal := (tiers.map fun tier => tier.wanted.sum).sum

theorem filledTiers_sum (tiers : List Tier) :
    ((filledTiers tiers).map Prod.snd).sum = wantedIn tiers := by
  rw [filledTiers, List.map_flatMap, List.flatMap, List.sum_flatten, List.map_map, wantedIn]
  congr 1
  refine List.map_congr_left fun tier _ => ?_
  simp only [Function.comp_apply, List.map_map, Tier.wanted]
  rfl

theorem Tier.standing_fits {m : ℤ} {tier : Tier} (h : FitTogether m (tier.1 :: tier.wanted)) :
    tier.standing = tier.1 + tier.wanted.sum := by
  have hwanted := h.sublist (List.sublist_cons_self _ _)
  have hsum : FitTogether m [tier.1, tier.wanted.sum] := by
    refine ⟨?_, ?_, by simpa using h.small⟩
    · intro q hq
      rcases List.mem_pair.mp hq with rfl | rfl
      exacts [h.nonneg _ (by simp), hwanted.sum_nonneg]
    · intro q hq
      rcases List.mem_pair.mp hq with rfl | rfl
      exacts [h.onPlace _ (by simp), OnGrid.sum hwanted.onPlace]
  rw [Tier.standing, sumInContext_fits hwanted]
  simpa using hsum.foldl_add

/-- **What is left of a volume** where amounts fit: all that the covered tiers do not hold. -/
theorem coverage_left {m : ℤ} {volume : Decimal} {tiers : List Tier}
    (hvolume : FitTogether m [volume]) (h : ∀ tier ∈ tiers, FitTogether m (tier.1 :: tier.wanted)) :
    publishedIn (coverage volume tiers).1 + wantedIn (coverage volume tiers).1 ≤ volume ∧
      ∀ margin ∈ (coverage volume tiers).2, margin.left =
        volume - (publishedIn (coverage volume tiers).1 + wantedIn (coverage volume tiers).1) := by
  induction tiers generalizing volume with
  | nil =>
    refine ⟨?_, by simp [coverage]⟩
    simpa [coverage, publishedIn, wantedIn] using hvolume.nonneg volume (by simp)
  | cons tier tiers ih =>
    have htier := h tier (by simp)
    have hstanding := Tier.standing_fits htier
    by_cases hcovers : tier.standing ≤ volume
    · have hleft : FitTogether m [volume - tier.standing] := by
        have hnonneg : 0 ≤ tier.standing := by
          rw [hstanding, ← List.sum_cons]
          exact htier.sum_nonneg
        have hplace : OnGrid (placeUnit m) tier.standing := by
          rw [hstanding, ← List.sum_cons]
          exact OnGrid.sum htier.onPlace
        refine ⟨by simpa using hcovers, ?_, ?_⟩
        · simpa using (hvolume.onPlace volume (by simp)).sub hplace
        · have hsmall := hvolume.small
          rw [List.sum_singleton] at hsmall ⊢
          linarith
      have hexact : subtract volume tier.standing = volume - tier.standing :=
        inContext_of_place (hleft.onPlace _ (by simp)) (hleft.nonneg _ (by simp))
          (by simpa using hleft.small)
      obtain ⟨hle, hmargin⟩ := ih hleft fun t ht => h t (by simp [ht])
      rw [coverage_covers hcovers, hexact]
      simp only [publishedIn, wantedIn, List.map_cons, List.sum_cons] at hle hmargin ⊢
      refine ⟨by linarith, fun margin hmem => ?_⟩
      rw [hmargin margin hmem]
      linarith
    · rw [coverage_runsOut hcovers]
      refine ⟨by simpa [publishedIn, wantedIn] using hvolume.nonneg volume (by simp), ?_⟩
      intro margin hmem
      obtain rfl := Option.some.inj (Option.mem_def.mp hmem)
      simp [publishedIn, wantedIn]

/-- **Where amounts fit, a side's orders are given no more than the volume** iff those of the
    tier where it runs out are given no more than what is left there and what was published
    ahead of it. -/
theorem given_sum_iff {m : ℤ} (inStep : Decimal → Decimal) (priority : AuctionPriority)
    {volume : Decimal} {tiers : List Tier} (hvolume : FitTogether m [volume])
    (h : ∀ tier ∈ tiers, FitTogether m (tier.1 :: tier.wanted)) :
    ((given inStep priority volume tiers).map Prod.snd).sum ≤ volume ↔
      ∀ margin ∈ (coverage volume tiers).2, ((margin.shares inStep priority).map Prod.snd).sum ≤
        margin.left + publishedIn (coverage volume tiers).1 := by
  obtain ⟨hle, hleft⟩ := coverage_left hvolume h
  have hpublished : 0 ≤ publishedIn (coverage volume tiers).1 := by
    obtain ⟨worse, hworse⟩ := coverage_split volume tiers
    refine List.sum_nonneg fun q hq => ?_
    obtain ⟨tier, htier, rfl⟩ := List.mem_map.mp hq
    have hmem : tier ∈ tiers := by
      rw [hworse]
      simp [htier]
    exact (h tier hmem).nonneg _ (by simp)
  rw [given, List.map_append, List.sum_append, filledTiers_sum]
  cases hrest : (coverage volume tiers).2 with
  | none =>
    refine iff_of_true ?_ fun _ hmem => (nomatch hmem)
    simp only [Option.elim_none, List.map_nil, List.sum_nil]
    linarith
  | some margin =>
    have hm := hleft margin (by rw [hrest]; rfl)
    simp only [Option.elim_some, Option.mem_def, Option.some.injEq, forall_eq', hm]
    constructor <;> intro hsum <;> linarith

end AlphaLab
