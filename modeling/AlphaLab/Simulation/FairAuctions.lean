/-
  The price of a computed auction, and what it gives the run's orders.

  * `Maximises`: a price that matches the most, then leaves the least, then is the one the
    declared tie-break prefers.
  * `Outranks`: an order at market, or at a better limit, than another of its side.
  * **A computed uncross** (`computed_uncross_fair_iff`) chooses such a price and fills no
    order before those that outrank it; where the amounts fit the context, no order is given
    more than it wants and no side more than is matched iff that holds of the shares at the
    price where the matched volume runs out.
-/
import AlphaLab.Simulation.AuctionTiers
import AlphaLab.Simulation.ExpiryRuns

namespace AlphaLab

open Rounding

/-! ## The price -/

namespace AuctionInterest

variable (book : AuctionInterest) (own : List Order)

/-- The prices stated in an auction: the book's, and the limits of the run's orders. -/
def statedPrices : List Decimal :=
  book.bids.map Prod.fst ++ book.offers.map Prod.fst ++ own.filterMap (·.limitPrice)

def matchedAt (price : Decimal) : Decimal :=
  min (book.interest own .buy price) (book.interest own .sell price)

def imbalanceAt (price : Decimal) : Decimal :=
  subtract (book.interest own .buy price) (book.interest own .sell price)

end AuctionInterest

def AuctionTieBreak.Prefers (rule : AuctionTieBreak) (reference : Option Decimal)
    (price other : Decimal) : Prop :=
  match rule with
  | .highest => other ≤ price
  | .lowest => price ≤ other
  | .nearestReference => ∃ r, reference = some r ∧
      (|subtract price r| < |subtract other r| ∨
        |subtract price r| = |subtract other r| ∧ price ≤ other)

/-- A price that matches the most; of those, leaves the least; of those, is preferred. -/
structure AuctionInterest.Maximises (book : AuctionInterest) (own : List Order)
    (rule : AuctionTieBreak) (reference : Option Decimal) (price : Decimal) : Prop where
  stated : price ∈ book.statedPrices own
  most : ∀ p ∈ book.statedPrices own, book.matchedAt own p ≤ book.matchedAt own price
  least : ∀ p ∈ book.statedPrices own, book.matchedAt own p = book.matchedAt own price →
    |book.imbalanceAt own price| ≤ |book.imbalanceAt own p|
  preferred : ∀ p ∈ book.statedPrices own, book.matchedAt own p = book.matchedAt own price →
    |book.imbalanceAt own p| = |book.imbalanceAt own price| → rule.Prefers reference price p

section
variable {book : AuctionInterest} {own : List Order}

theorem mem_bestFirst {side : Side} {prices : List Decimal} {p : Decimal} :
    p ∈ bestFirst side prices ↔ p ∈ prices := by
  cases side <;> simp [bestFirst]

theorem ranked_eq : SimState.ranked book own = (bestFirst .sell (book.statedPrices own)).map
    fun price => ⟨price, book.matchedAt own price, book.imbalanceAt own price⟩ := rfl

variable {r : RankedPrice}

theorem mem_ranked : r ∈ SimState.ranked book own ↔
    r.price ∈ book.statedPrices own ∧ r.matched = book.matchedAt own r.price ∧
      r.imbalance = book.imbalanceAt own r.price := by
  rw [ranked_eq, List.mem_map]
  constructor
  · rintro ⟨p, hp, rfl⟩
    exact ⟨mem_bestFirst.mp hp, rfl, rfl⟩
  · rintro ⟨hp, hm, hi⟩
    refine ⟨r.price, mem_bestFirst.mpr hp, ?_⟩
    rw [← hm, ← hi]

theorem tiedPrices_sorted : (tiedPrices (SimState.ranked book own)).Pairwise
    fun r r' => r.price ≤ r'.price := by
  refine List.Pairwise.filter _ (List.Pairwise.filter _ ?_)
  rw [ranked_eq, List.pairwise_map]
  exact List.pairwise_insertionSort (· ≤ ·) _

theorem le_mostMatched {ranked : List RankedPrice} (h : r ∈ ranked) :
    r.matched ≤ mostMatched ranked := by
  unfold mostMatched
  have hfold : ∀ (l : List Decimal) (a : Decimal), a ≤ l.foldl max a ∧ ∀ q ∈ l, q ≤ l.foldl max a := by
    intro l
    induction l with
    | nil => simp
    | cons q l ih =>
      intro a
      obtain ⟨hstart, hall⟩ := ih (max a q)
      refine ⟨(le_max_left a q).trans hstart, fun r hr => ?_⟩
      rcases List.mem_cons.mp hr with rfl | hr
      exacts [(le_max_right a _).trans hstart, hall r hr]
  exact (hfold _ 0).2 _ (List.mem_map_of_mem h)

theorem mem_tiedPrices {ranked : List RankedPrice} : r ∈ tiedPrices ranked ↔
    (r ∈ ranked ∧ r.matched = mostMatched ranked) ∧
      ∀ r' ∈ ranked, r'.matched = mostMatched ranked → |r.imbalance| ≤ |r'.imbalance| := by
  simp only [tiedPrices, List.mem_filter, decide_eq_true_eq, List.all_eq_true, and_imp]

theorem choose_spec {rule : AuctionTieBreak} {reference : Option Decimal} {tied : List RankedPrice}
    (hsorted : tied.Pairwise fun r r' => r.price ≤ r'.price)
    (h : rule.choose reference tied = some r) :
    r ∈ tied ∧ ∀ r' ∈ tied, rule.Prefers reference r.price r'.price := by
  cases rule with
  | highest =>
    change tied.getLast? = some r at h
    obtain ⟨rest, rfl⟩ := List.getLast?_eq_some_iff.mp h
    refine ⟨by simp, fun r' hr' => ?_⟩
    rcases List.mem_append.mp hr' with hr' | hr'
    · exact (List.pairwise_append.mp hsorted).2.2 r' hr' r (by simp)
    · rw [List.mem_singleton.mp hr']
      exact le_refl r.price
  | lowest =>
    change tied.head? = some r at h
    obtain ⟨rest, rfl⟩ := List.head?_eq_some_iff.mp h
    refine ⟨by simp, fun r' hr' => ?_⟩
    rcases List.mem_cons.mp hr' with rfl | hr'
    · exact le_refl r'.price
    · exact (List.pairwise_cons.mp hsorted).1 r' hr'
  | nearestReference =>
    change (reference.bind fun ref => tied.find? fun r => tied.all fun r' =>
      |subtract r.price ref| ≤ |subtract r'.price ref|) = some r at h
    obtain ⟨ref, href, hfind⟩ := Option.bind_eq_some_iff.mp h
    obtain ⟨hnearest, before, after, rfl, hbefore⟩ := List.find?_eq_some_iff_append.mp hfind
    simp only [List.all_eq_true, decide_eq_true_eq] at hnearest
    refine ⟨by simp, fun r' hr' => ⟨ref, href, ?_⟩⟩
    rcases (hnearest r' hr').lt_or_eq with hlt | heq
    · exact Or.inl hlt
    · refine Or.inr ⟨heq, ?_⟩
      rcases List.mem_append.mp hr' with hin | hin
      · -- an earlier price as near would have been found before
        have hfound := hbefore r' hin
        have hall : ((before ++ r :: after).all fun x =>
            decide (|subtract r'.price ref| ≤ |subtract x.price ref|)) = true := by
          simp only [List.all_eq_true, decide_eq_true_eq]
          intro x hx
          rw [← heq]
          exact hnearest x hx
        rw [hall] at hfound
        cases hfound
      · rcases List.mem_cons.mp hin with rfl | hin
        · exact le_refl r'.price
        · exact (List.pairwise_cons.mp (List.pairwise_append.mp hsorted).2.1).1 r' hin

/-- **The price chosen** matches the most, then leaves the least, then is preferred. -/
theorem chosen_maximises {rule : AuctionTieBreak} {reference : Option Decimal}
    (h : rule.choose reference (tiedPrices (SimState.ranked book own)) = some r) :
    book.Maximises own rule reference r.price ∧
      book.matchedAt own r.price = mostMatched (SimState.ranked book own) := by
  obtain ⟨hmem, hprefers⟩ := choose_spec tiedPrices_sorted h
  obtain ⟨⟨hranked, hmost⟩, hleast⟩ := mem_tiedPrices.mp hmem
  obtain ⟨hstated, hmatched, himbalance⟩ := mem_ranked.mp hranked
  have hrank : ∀ p ∈ book.statedPrices own,
      (⟨p, book.matchedAt own p, book.imbalanceAt own p⟩ : RankedPrice) ∈
        SimState.ranked book own := fun p hp => mem_ranked.mpr ⟨hp, rfl, rfl⟩
  rw [hmatched] at hmost
  rw [himbalance] at hleast
  refine ⟨⟨hstated, ?_, ?_, ?_⟩, hmost⟩
  · intro p hp
    rw [hmost]
    exact le_mostMatched (hrank p hp)
  · intro p hp hm
    have hle := hleast ⟨p, book.matchedAt own p, book.imbalanceAt own p⟩ (hrank p hp)
      (hm.trans hmost)
    exact hle
  · intro p hp hm hi
    have htied : (⟨p, book.matchedAt own p, book.imbalanceAt own p⟩ : RankedPrice) ∈
        tiedPrices (SimState.ranked book own) := by
      refine mem_tiedPrices.mpr ⟨⟨hrank p hp, hm.trans hmost⟩, fun r' hr' hm' => ?_⟩
      have hle := hleast r' hr' hm'
      rwa [← hi] at hle
    exact hprefers _ htied

end

/-! ## The tiers of a side -/

/-- An order at market before any at a limit, a better limit before a worse one. -/
def Order.Outranks (o o' : Order) : Prop :=
  (o.orderType = .market ∧ o'.orderType = .limit) ∨
    (o.orderType = .limit ∧ o'.orderType = .limit ∧ ∃ l l', o.limitPrice = some l ∧
      o'.limitPrice = some l' ∧ l ≠ l' ∧ o'.side.within l l' = true)

variable {o : Order} {tier : Tier}

section
variable {book : AuctionInterest} {own : List Order} {side : Side} {price : Decimal}

theorem bestFirst_pairwise (side : Side) (prices : List Decimal) :
    (bestFirst side prices).Pairwise fun l l' => l ≠ l' ∧ side.within l l' = true := by
  cases side with
  | buy =>
    have hnodup : (bestFirst .buy prices).Nodup :=
      (List.perm_insertionSort _ _).nodup_iff.mpr (List.nodup_dedup _)
    refine (List.Pairwise.and hnodup (List.pairwise_insertionSort (· ≥ ·) _)).imp ?_
    rintro l l' ⟨hne, hle⟩
    exact ⟨hne, by simpa [Side.within] using hle⟩
  | sell =>
    have hnodup : (bestFirst .sell prices).Nodup :=
      (List.perm_insertionSort _ _).nodup_iff.mpr (List.nodup_dedup _)
    refine (List.Pairwise.and hnodup (List.pairwise_insertionSort (· ≤ ·) _)).imp ?_
    rintro l l' ⟨hne, hle⟩
    exact ⟨hne, by simpa [Side.within] using hle⟩

theorem within_antisymm {side : Side} {l l' : Decimal} (h : side.within l l' = true)
    (h' : side.within l' l = true) : l = l' := by
  cases side <;> simp only [Side.within, decide_eq_true_eq] at h h'
  exacts [le_antisymm h' h, le_antisymm h h']

theorem within_trans {side : Side} {l l' price : Decimal} (h : side.within l l' = true)
    (h' : side.within l' price = true) : side.within l price = true := by
  cases side <;> simp only [Side.within, decide_eq_true_eq] at h h' ⊢
  exacts [h'.trans h, h.trans h']

def AuctionInterest.limits (book : AuctionInterest) (own : List Order) (side : Side)
    (price : Decimal) : List Decimal :=
  bestFirst side ((((own.filter (·.side = side)).filterMap (·.limitPrice)) ++
    (book.levels side).map Prod.fst).filter (side.within · price))

def AuctionInterest.limitTier (book : AuctionInterest) (own : List Order) (side : Side)
    (level : Decimal) : Tier :=
  (levelsAt (book.levels side) (· = level),
    (own.filter (·.side = side)).filter fun o => o.orderType = .limit && o.limitPrice = some level)

def AuctionInterest.marketTier (book : AuctionInterest) (own : List Order) (side : Side) : Tier :=
  (book.atMarket side, (own.filter (·.side = side)).filter (·.orderType = .market))

theorem tiers_eq : book.tiers own side price = book.marketTier own side ::
    (book.limits own side price).map (book.limitTier own side) := rfl

theorem mem_marketTier : o ∈ (book.marketTier own side).2 ↔
    o ∈ own ∧ o.side = side ∧ o.orderType = .market := by
  simp only [AuctionInterest.marketTier, List.mem_filter, decide_eq_true_eq, and_assoc]

theorem mem_limitTier {level : Decimal} : o ∈ (book.limitTier own side level).2 ↔
    o ∈ own ∧ o.side = side ∧ o.orderType = .limit ∧ o.limitPrice = some level := by
  simp only [AuctionInterest.limitTier, List.mem_filter, decide_eq_true_eq, Bool.and_eq_true,
    and_assoc]

theorem mem_limits {level : Decimal} : level ∈ book.limits own side price ↔
    ((∃ o ∈ own, o.side = side ∧ o.limitPrice = some level) ∨
      level ∈ (book.levels side).map Prod.fst) ∧ side.within level price = true := by
  simp only [AuctionInterest.limits, mem_bestFirst, List.mem_filter, List.mem_append,
    List.mem_filterMap, decide_eq_true_eq, and_assoc]

theorem mem_tiers (h : o ∈ (book.tiers own side price).flatMap (·.2)) :
    o ∈ own ∧ o.side = side ∧ (o.orderType = .market ∨ o.orderType = .limit ∧
      ∃ level, o.limitPrice = some level ∧ side.within level price = true) := by
  rw [tiers_eq, List.flatMap_cons, List.mem_append, List.mem_flatMap] at h
  rcases h with h | ⟨tier, htier, ho⟩
  · obtain ⟨hown, hside, hmarket⟩ := mem_marketTier.mp h
    exact ⟨hown, hside, Or.inl hmarket⟩
  · obtain ⟨level, hlevel, rfl⟩ := List.mem_map.mp htier
    obtain ⟨hown, hside, hlimit, hprice⟩ := mem_limitTier.mp ho
    exact ⟨hown, hside, Or.inr ⟨hlimit, level, hprice, (mem_limits.mp hlevel).2⟩⟩

theorem mem_tiers_of (hown : o ∈ own) (hside : o.side = side) (h : o.orderType = .market ∨
      o.orderType = .limit ∧ ∃ level, o.limitPrice = some level ∧ side.within level price = true) :
    o ∈ (book.tiers own side price).flatMap (·.2) := by
  rw [tiers_eq, List.flatMap_cons, List.mem_append, List.mem_flatMap]
  rcases h with hmarket | ⟨hlimit, level, hlevel, hwithin⟩
  · exact Or.inl (mem_marketTier.mpr ⟨hown, hside, hmarket⟩)
  · have hmem : level ∈ book.limits own side price :=
      mem_limits.mpr ⟨Or.inl ⟨o, hown, hside, hlevel⟩, hwithin⟩
    exact Or.inr ⟨_, List.mem_map_of_mem hmem, mem_limitTier.mpr ⟨hown, hside, hlimit, hlevel⟩⟩

theorem tier_level (h : tier ∈ book.tiers own side price) {o o' : Order} (ho : o ∈ tier.2)
    (ho' : o' ∈ tier.2) : ¬ o'.Outranks o := by
  rw [tiers_eq, List.mem_cons] at h
  rcases h with rfl | h
  · have hm := (mem_marketTier.mp ho).2.2
    rintro (⟨-, hl⟩ | ⟨-, hl, -⟩) <;> rw [hm] at hl <;> cases hl
  · obtain ⟨level, -, rfl⟩ := List.mem_map.mp h
    obtain ⟨-, -, -, hl⟩ := mem_limitTier.mp ho
    obtain ⟨-, -, hlimit', hl'⟩ := mem_limitTier.mp ho'
    rintro (⟨hm, -⟩ | ⟨-, -, l, l', h1, h2, hne, -⟩)
    · rw [hlimit'] at hm
      cases hm
    · rw [hl'] at h1
      rw [hl] at h2
      obtain rfl := Option.some.inj h1
      exact hne (Option.some.inj h2)

theorem tiers_pairwise : (book.tiers own side price).Pairwise fun tier tier' =>
    ∀ o ∈ tier.2, ∀ o' ∈ tier'.2, ¬ o'.Outranks o ∧ o ≠ o' := by
  rw [tiers_eq, List.pairwise_cons, List.pairwise_map]
  refine ⟨?_, (bestFirst_pairwise side _).imp ?_⟩
  · intro tier' htier' o ho o' ho'
    obtain ⟨level, -, rfl⟩ := List.mem_map.mp htier'
    have hmarket := (mem_marketTier.mp ho).2.2
    have hlimit := (mem_limitTier.mp ho').2.2.1
    refine ⟨?_, ?_⟩
    · rintro (⟨-, h⟩ | ⟨-, h, -⟩) <;> rw [hmarket] at h <;> cases h
    · rintro rfl
      rw [hmarket] at hlimit
      cases hlimit
  · rintro l l' ⟨hne, hwithin⟩ o ho o' ho'
    obtain ⟨-, hside, hlimit, hl⟩ := mem_limitTier.mp ho
    obtain ⟨-, -, hlimit', hl'⟩ := mem_limitTier.mp ho'
    refine ⟨?_, ?_⟩
    · rintro (⟨h, -⟩ | ⟨-, -, a, b, ha, hb, hab, hbetter⟩)
      · rw [hlimit'] at h
        cases h
      · rw [hl'] at ha
        rw [hl] at hb
        obtain rfl := Option.some.inj ha
        obtain rfl := Option.some.inj hb
        rw [hside] at hbetter
        exact hab (within_antisymm hbetter hwithin)
    · rintro rfl
      rw [hl] at hl'
      exact hne (Option.some.inj hl')

theorem tiers_ids_nodup (hids : (own.map (·.orderId)).Nodup) :
    (((book.tiers own side price).flatMap (·.2)).map (·.orderId)).Nodup := by
  have hown : own.Nodup := List.Nodup.of_map _ hids
  have hinj : ∀ o ∈ own, ∀ o' ∈ own, o.orderId = o'.orderId → o = o' :=
    fun o ho o' ho' h => List.inj_on_of_nodup_map hids ho ho' h
  refine List.Nodup.map_on ?_ ?_
  · intro o ho o' ho' h
    exact hinj o (mem_tiers ho).1 o' (mem_tiers ho').1 h
  · rw [List.nodup_flatMap]
    refine ⟨?_, tiers_pairwise.imp fun h => ?_⟩
    · intro tier htier
      rw [tiers_eq, List.mem_cons] at htier
      rcases htier with rfl | htier
      · exact (hown.filter _).filter _
      · obtain ⟨level, -, rfl⟩ := List.mem_map.mp htier
        exact (hown.filter _).filter _
    · intro o ho ho'
      exact (h o ho o ho').2 rfl

end

def readOf (entries : List (String × Decimal)) (orderId : String) : Decimal :=
  ((Dict.empty.setAll entries).get? orderId).getD 0

variable {entries : List (String × Decimal)} {orderId : String}

theorem readOf_of_mem (hnodup : (entries.map Prod.fst).Nodup) {quantity : Decimal}
    (h : (orderId, quantity) ∈ entries) : readOf entries orderId = quantity := by
  have hread := Dict.get?_setAll_of_mem (d := Dict.empty) hnodup h
  rw [readOf, hread]
  rfl

theorem readOf_of_notMem (h : orderId ∉ entries.map Prod.fst) : readOf entries orderId = 0 := by
  rw [readOf, Dict.get?_setAll_of_notMem h, Dict.get?_empty]
  rfl

theorem sum_readOf {ids : List String} (hnodup : (entries.map Prod.fst).Nodup) (hids : ids.Nodup)
    (hsub : entries.map Prod.fst ⊆ ids) :
    (ids.map (readOf entries)).sum = (entries.map Prod.snd).sum := by
  obtain ⟨l, hperm, hsublist⟩ := List.subperm_of_subset hnodup hsub
  obtain ⟨rest, hrest⟩ := hsublist.exists_perm_append
  have hsplit : ids.Perm (entries.map Prod.fst ++ rest) := hrest.trans (hperm.append_right rest)
  have hdisjoint := List.disjoint_of_nodup_append (hsplit.nodup_iff.mp hids)
  have hzero : (rest.map (readOf entries)).sum = 0 := by
    refine List.sum_eq_zero fun q hq => ?_
    obtain ⟨orderId, hmem, rfl⟩ := List.mem_map.mp hq
    exact readOf_of_notMem fun h => hdisjoint h hmem
  rw [(hsplit.map _).sum_eq, List.map_append, List.sum_append, hzero, add_zero, List.map_map]
  congr 1
  refine List.map_congr_left fun e he => ?_
  exact readOf_of_mem hnodup he

/-! ## What the orders are given -/

section
variable (inStep : Decimal → Decimal) (priority : AuctionPriority) (volume price : Decimal)
  {book : AuctionInterest} {own : List Order} {side : Side}

def AuctionInterest.fills (book : AuctionInterest) (own : List Order) (side : Side) :
    List (String × Decimal) :=
  given inStep priority volume (book.tiers own side price)

theorem fills_ids_nodup (hids : (own.map (·.orderId)).Nodup) :
    ((book.fills inStep priority volume price own side).map Prod.fst).Nodup :=
  (tiers_ids_nodup hids).sublist (given_ids_sublist _ _ _ _)

theorem mem_fills_ids
    (h : orderId ∈ (book.fills inStep priority volume price own side).map Prod.fst) :
    ∃ o ∈ own, o.orderId = orderId ∧ o.side = side := by
  obtain ⟨o, ho, rfl⟩ := List.mem_map.mp ((given_ids_sublist _ _ _ _).subset h)
  obtain ⟨hown, hside, -⟩ := mem_tiers ho
  exact ⟨o, hown, rfl, hside⟩

theorem allotted_of_side (hids : (own.map (·.orderId)).Nodup) (ho : o ∈ own) :
    (((Dict.empty.setAll (book.fills inStep priority volume price own .buy)).setAll
        (book.fills inStep priority volume price own .sell)).get? o.orderId).getD 0 =
      readOf (book.fills inStep priority volume price own o.side) o.orderId := by
  have hside : ∀ side, side ≠ o.side →
      o.orderId ∉ (book.fills inStep priority volume price own side).map Prod.fst := by
    intro side hne hmem
    obtain ⟨o', ho', hid, hs⟩ := mem_fills_ids inStep priority volume price hmem
    obtain rfl := List.inj_on_of_nodup_map hids ho' ho hid
    exact hne hs.symm
  cases hs : o.side with
  | buy =>
    rw [Dict.get?_setAll_of_notMem (hside .sell (by rw [hs]; decide))]
    rfl
  | sell =>
    have hbuy := hside .buy (by rw [hs]; decide)
    by_cases hmem : o.orderId ∈ (book.fills inStep priority volume price own .sell).map Prod.fst
    · obtain ⟨e, he, hid⟩ := List.mem_map.mp hmem
      have hnodup : ((book.fills inStep priority volume price own .sell).map Prod.fst).Nodup :=
        fills_ids_nodup inStep priority volume price hids
      rw [← hid, Dict.get?_setAll_of_mem hnodup he, readOf_of_mem hnodup he]
      rfl
    · rw [Dict.get?_setAll_of_notMem hmem, Dict.get?_setAll_of_notMem hbuy, readOf_of_notMem hmem,
        Dict.get?_empty]
      rfl

theorem sum_fills (hids : (own.map (·.orderId)).Nodup) :
    ((own.filter (·.side = side)).map fun o =>
        readOf (book.fills inStep priority volume price own side) o.orderId).sum =
      ((book.fills inStep priority volume price own side).map Prod.snd).sum := by
  have hnodup : ((own.filter (·.side = side)).map (·.orderId)).Nodup :=
    hids.sublist (List.filter_sublist.map _)
  rw [← sum_readOf (fills_ids_nodup inStep priority volume price hids) hnodup, List.map_map]
  · rfl
  · intro orderId hmem
    obtain ⟨o, ho, rfl, hs⟩ := mem_fills_ids inStep priority volume price hmem
    exact List.mem_map_of_mem (List.mem_filter.mpr ⟨ho, by simpa using hs⟩)

theorem readOf_covered (hids : (own.map (·.orderId)).Nodup)
    (htier : tier ∈ (coverage volume (book.tiers own side price)).1) (ho : o ∈ tier.2) :
    readOf (book.fills inStep priority volume price own side) o.orderId = o.remainingQuantity := by
  refine readOf_of_mem (fills_ids_nodup inStep priority volume price hids) ?_
  refine List.mem_append_left _ (List.mem_flatMap.mpr ⟨tier, htier, ?_⟩)
  exact List.mem_map_of_mem ho

/-- **Strict priority**: who is given something is outranked only by those given all they
    want. -/
theorem outranks_filled (hids : (own.map (·.orderId)).Nodup) {o o' : Order} (ho : o ∈ own)
    (ho' : o' ∈ own) (hside : o.side = side) (hside' : o'.side = side) (hbetter : o'.Outranks o)
    (hgiven : readOf (book.fills inStep priority volume price own side) o.orderId ≠ 0) :
    readOf (book.fills inStep priority volume price own side) o'.orderId =
      o'.remainingQuantity := by
  have hmem : o.orderId ∈ (book.fills inStep priority volume price own side).map Prod.fst := by
    by_contra h
    exact hgiven (readOf_of_notMem h)
  obtain ⟨worse, hsplit⟩ := coverage_split volume (book.tiers own side price)
  -- the order given something stands in a covered tier or at the margin
  have hgivenTier : ∃ tier ∈ (coverage volume (book.tiers own side price)).1 ++
      ((coverage volume (book.tiers own side price)).2.elim [] fun margin => [margin.tier]),
      o ∈ tier.2 := by
    have hin : o.orderId ∈ ((((coverage volume (book.tiers own side price)).1 ++
        ((coverage volume (book.tiers own side price)).2.elim [] fun margin =>
          [margin.tier])).flatMap (·.2)).map (·.orderId)) := by
      rw [AuctionInterest.fills, given, List.map_append, filledTiers_ids] at hmem
      rw [List.flatMap_append, List.map_append]
      cases hrest : (coverage volume (book.tiers own side price)).2 with
      | none =>
        rw [hrest] at hmem
        exact hmem
      | some margin =>
        rw [hrest, Option.elim_some, Margin.shares_ids] at hmem
        simpa using hmem
    obtain ⟨x, hx, hid⟩ := List.mem_map.mp hin
    obtain ⟨tier, htier, hxt⟩ := List.mem_flatMap.mp hx
    have hxown : x ∈ own := by
      refine (mem_tiers (?_ : x ∈ (book.tiers own side price).flatMap (·.2))).1
      rw [hsplit]
      exact List.mem_flatMap.mpr ⟨tier, List.mem_append_left _ htier, hxt⟩
    obtain rfl := List.inj_on_of_nodup_map hids hxown ho hid
    exact ⟨tier, htier, hxt⟩
  obtain ⟨tier, htier, hot⟩ := hgivenTier
  have hall : tier ∈ book.tiers own side price := by
    rw [hsplit]
    exact List.mem_append_left _ htier
  -- what outranks it stands in a tier too
  have hreached : o'.orderType = .market ∨ o'.orderType = .limit ∧
      ∃ level, o'.limitPrice = some level ∧ side.within level price = true := by
    have hlevel := (mem_tiers (List.mem_flatMap.mpr ⟨tier, hall, hot⟩)).2.2
    rcases hbetter with ⟨hm, -⟩ | ⟨hl', hl, l, l', h1, h2, -, hw⟩
    · exact Or.inl hm
    · refine Or.inr ⟨hl', l, h1, ?_⟩
      rcases hlevel with hm | ⟨-, level, hp, hwithin⟩
      · rw [hl] at hm
        cases hm
      · rw [h2] at hp
        obtain rfl := Option.some.inj hp
        rw [hside] at hw
        exact within_trans hw hwithin
  have hstands : o' ∈ (book.tiers own side price).flatMap (·.2) :=
    mem_tiers_of ho' hside' hreached
  obtain ⟨tier', htier', hot'⟩ := List.mem_flatMap.mp hstands
  have hpair := @tiers_pairwise book own side price
  have hcovered : tier' ∈ (coverage volume (book.tiers own side price)).1 := by
    by_contra hnot
    have hne : tier' ≠ tier := by
      rintro rfl
      exact tier_level hall hot hot' hbetter
    rw [hsplit] at hpair htier'
    rcases List.mem_append.mp htier' with hfront | hworse
    · -- at the margin: the other is covered, so ahead of it
      have hmargin := (List.mem_append.mp hfront).resolve_left hnot
      cases hrest : (coverage volume (book.tiers own side price)).2 with
      | none =>
        rw [hrest] at hmargin
        cases hmargin
      | some margin =>
        rw [hrest, Option.elim_some] at hmargin htier hpair
        have hlast := List.mem_singleton.mp hmargin
        rcases List.mem_append.mp htier with hahead | hlast'
        · rw [List.append_assoc] at hpair
          exact ((List.pairwise_append.mp hpair).2.2 tier hahead tier'
            (List.mem_append_left _ (by simp [hlast])) o hot o' hot').1 hbetter
        · exact hne (hlast.trans (List.mem_singleton.mp hlast').symm)
    · exact ((List.pairwise_append.mp hpair).2.2 tier htier tier' hworse o hot o' hot').1 hbetter
  exact readOf_covered inStep priority volume price hids hcovered hot'

end

/-! ## Amounts that fit -/

namespace AuctionInterest

variable (book : AuctionInterest) (own : List Order)

/-- What a side's interest is made of: published at market and at each level, and the run's. -/
def quantities (side : Side) : List Decimal :=
  book.atMarket side :: ((book.levels side).map Prod.snd ++
    (own.filter (·.side = side)).map (·.remainingQuantity))

/-- The quantities of each side are whole numbers of one decimal place's unit, and together
    need no digit that the context does not have. -/
def FitsContext : Prop := ∃ m, ∀ side, FitTogether m (book.quantities own side)

/-- Where the matched volume runs out, an order's share is within what it wants, and the
    shares are within what is left there and what was published ahead. -/
def SharesWithin (inStep : Decimal → Decimal) (priority : AuctionPriority)
    (volume price : Decimal) (side : Side) : Prop :=
  ∀ margin ∈ (coverage volume (book.tiers own side price)).2,
    (∀ o ∈ margin.tier.2, readOf (margin.shares inStep priority) o.orderId ≤ o.remainingQuantity) ∧
    ((margin.shares inStep priority).map Prod.snd).sum ≤
      margin.left + publishedIn (coverage volume (book.tiers own side price)).1

end AuctionInterest

section
variable {m : ℤ} {book : AuctionInterest} {own : List Order} {side : Side}

theorem FitTogether.collapse {l l' : List Decimal} (h : FitTogether m (l ++ l')) :
    FitTogether m (l.sum :: l') where
  nonneg q hq := by
    rcases List.mem_cons.mp hq with rfl | hq
    exacts [(h.sublist (List.sublist_append_left _ _)).sum_nonneg, h.nonneg q (by simp [hq])]
  onPlace q hq := by
    rcases List.mem_cons.mp hq with rfl | hq
    exacts [OnGrid.sum fun r hr => h.onPlace r (by simp [hr]), h.onPlace q (by simp [hq])]
  small := by
    have hsmall := h.small
    rwa [List.sum_append, ← List.sum_cons] at hsmall

theorem levelsAt_fits (h : FitTogether m (book.quantities own side)) (reaches : Decimal → Bool)
    {o : List Order} (hsub : o.Sublist (own.filter (·.side = side))) :
    FitTogether m (levelsAt (book.levels side) reaches :: o.map (·.remainingQuantity)) := by
  have hall := h.sublist (List.Sublist.trans
    (((List.filter_sublist (p := fun level => reaches level.1)).map Prod.snd).append
      (hsub.map (·.remainingQuantity))) (List.sublist_cons_self _ _))
  have hlevels := hall.sublist (List.sublist_append_left _ _)
  rw [levelsAt, sumInContext_fits hlevels]
  exact hall.collapse

theorem tier_fits (h : FitTogether m (book.quantities own side)) {price : Decimal}
    (htier : tier ∈ book.tiers own side price) : FitTogether m (tier.1 :: tier.wanted) := by
  rw [tiers_eq, List.mem_cons] at htier
  rcases htier with rfl | htier
  · refine h.sublist (List.Sublist.cons_cons _ ?_)
    exact (List.filter_sublist.map _).trans (List.sublist_append_right _ _)
  · obtain ⟨level, -, rfl⟩ := List.mem_map.mp htier
    exact levelsAt_fits h (fun p => decide (p = level))
      (o := (book.limitTier own side level).2) List.filter_sublist

theorem interest_fits (h : FitTogether m (book.quantities own side)) (price : Decimal) :
    FitTogether m [book.interest own side price] := by
  have hreaching : (own.filter fun o => o.side = side && (o.orderType = .market ||
      o.withinLimit price)).Sublist (own.filter (·.side = side)) := by
    rw [← List.filter_filter]
    exact List.filter_sublist.filter _
  -- market, levels and orders are amounts of the side
  have hparts : FitTogether m
      (book.atMarket side :: levelsAt (book.levels side) (side.within · price) ::
        (own.filter fun o => o.side = side && (o.orderType = .market ||
          o.withinLimit price)).map (·.remainingQuantity)) := by
    have hsub : (book.atMarket side :: (((book.levels side).filter fun level =>
        side.within level.1 price).map Prod.snd ++ (own.filter fun o => o.side = side &&
          (o.orderType = .market || o.withinLimit price)).map (·.remainingQuantity))).Sublist
        (book.quantities own side) :=
      List.Sublist.cons_cons _ ((List.filter_sublist.map _).append (hreaching.map _))
    have hfits := h.sublist hsub
    have hswap := hfits.perm List.perm_middle.symm
    have hcollapsed := hswap.collapse.perm (List.Perm.swap _ _ _)
    have hexact := sumInContext_fits (hfits.sublist ((List.sublist_append_left _ _).trans
      (List.sublist_cons_self _ _)))
    rw [levelsAt, hexact]
    exact hcollapsed
  have hadd : add (book.atMarket side) (levelsAt (book.levels side) (side.within · price)) =
      book.atMarket side + levelsAt (book.levels side) (side.within · price) := by
    have hpair : FitTogether m [book.atMarket side,
        levelsAt (book.levels side) (side.within · price)] :=
      hparts.sublist (List.Sublist.cons_cons _ (List.Sublist.cons_cons _ (List.nil_sublist _)))
    simpa using hpair.foldl_add
  have hjoined : FitTogether m ((book.atMarket side +
      levelsAt (book.levels side) (side.within · price)) ::
      (own.filter fun o => o.side = side && (o.orderType = .market ||
        o.withinLimit price)).map (·.remainingQuantity)) := by
    have hcollapse := FitTogether.collapse (l := [book.atMarket side,
      levelsAt (book.levels side) (side.within · price)]) hparts
    simpa using hcollapse
  rw [AuctionInterest.interest, hadd, hjoined.foldl_add, ← List.sum_cons]
  exact FitTogether.collapse (by rw [List.append_nil]; exact hjoined)

theorem matchedAt_fits (h : ∀ side, FitTogether m (book.quantities own side)) (price : Decimal) :
    FitTogether m [book.matchedAt own price] := by
  rcases min_choice (book.interest own .buy price) (book.interest own .sell price) with heq | heq
  · rw [AuctionInterest.matchedAt, heq]
    exact interest_fits (h .buy) price
  · rw [AuctionInterest.matchedAt, heq]
    exact interest_fits (h .sell) price

end

section
variable {m : ℤ} {book : AuctionInterest} {own : List Order} {side : Side}
  (inStep : Decimal → Decimal) (priority : AuctionPriority) (volume price : Decimal)

theorem readOf_margin (hids : (own.map (·.orderId)).Nodup) {margin : Margin}
    (hmargin : margin ∈ (coverage volume (book.tiers own side price)).2) (ho : o ∈ margin.tier.2) :
    readOf (book.fills inStep priority volume price own side) o.orderId =
      readOf (margin.shares inStep priority) o.orderId := by
  have hrest := Option.mem_def.mp hmargin
  have hid : o.orderId ∈ (margin.shares inStep priority).map Prod.fst := by
    rw [Margin.shares_ids]
    exact List.mem_map_of_mem ho
  have hnodup : ((book.fills inStep priority volume price own side).map Prod.fst).Nodup :=
    fills_ids_nodup inStep priority volume price hids
  have hfills : book.fills inStep priority volume price own side =
      filledTiers (coverage volume (book.tiers own side price)).1 ++
        margin.shares inStep priority := by
    rw [AuctionInterest.fills, given, hrest]
    rfl
  obtain ⟨e, he, heid⟩ := List.mem_map.mp hid
  rw [hfills] at hnodup ⊢
  rw [← heid, readOf_of_mem hnodup (List.mem_append_right _ he)]
  rw [List.map_append] at hnodup
  exact (readOf_of_mem (List.nodup_append.mp hnodup).2.1 he).symm

/-- **Where amounts fit**, the orders of a side are given no more than they want, and
    together no more than the volume, iff the shares at its margin are within bounds. -/
theorem fills_within_iff (hids : (own.map (·.orderId)).Nodup)
    (hfits : FitTogether m (book.quantities own side)) (hvolume : FitTogether m [volume]) :
    ((∀ o ∈ own, o.side = side →
        readOf (book.fills inStep priority volume price own side) o.orderId ≤ o.remainingQuantity) ∧
      ((own.filter (·.side = side)).map fun o =>
        readOf (book.fills inStep priority volume price own side) o.orderId).sum ≤ volume) ↔
    book.SharesWithin own inStep priority volume price side := by
  have hsum := given_sum_iff inStep priority hvolume
    (fun tier (htier : tier ∈ book.tiers own side price) => tier_fits hfits htier)
  have hown : ∀ {margin : Margin} {o : Order},
      margin ∈ (coverage volume (book.tiers own side price)).2 → o ∈ margin.tier.2 →
      o ∈ own ∧ o.side = side := by
    intro margin o hmargin ho
    obtain ⟨worse, hsplit⟩ := coverage_split volume (book.tiers own side price)
    have hmem : o ∈ (book.tiers own side price).flatMap (·.2) := by
      rw [hsplit, Option.mem_def.mp hmargin]
      simp [ho]
    exact ⟨(mem_tiers hmem).1, (mem_tiers hmem).2.1⟩
  rw [sum_fills inStep priority volume price hids]
  constructor
  · rintro ⟨heach, hall⟩ margin hmargin
    refine ⟨fun o ho => ?_, hsum.mp hall margin hmargin⟩
    rw [← readOf_margin inStep priority volume price hids hmargin ho]
    exact heach o (hown hmargin ho).1 (hown hmargin ho).2
  · intro hwithin
    refine ⟨fun o ho hside => ?_, hsum.mpr fun margin hmargin => (hwithin margin hmargin).2⟩
    by_cases hmem : o.orderId ∈ (book.fills inStep priority volume price own side).map Prod.fst
    · rw [AuctionInterest.fills, given, List.map_append, filledTiers_ids, List.mem_append] at hmem
      rcases hmem with hcovered | hshare
      · obtain ⟨x, hx, hid⟩ := List.mem_map.mp hcovered
        obtain ⟨tier, htier, hxt⟩ := List.mem_flatMap.mp hx
        rw [← hid, readOf_covered inStep priority volume price hids htier hxt]
        obtain ⟨worse, hsplit⟩ := coverage_split volume (book.tiers own side price)
        have hxmem : x ∈ (book.tiers own side price).flatMap (·.2) := by
          rw [hsplit]
          simp only [List.append_assoc]
          exact List.mem_flatMap.mpr ⟨tier, List.mem_append_left _ htier, hxt⟩
        obtain rfl := List.inj_on_of_nodup_map hids (mem_tiers hxmem).1 ho hid
        exact le_refl _
      · cases hrest : (coverage volume (book.tiers own side price)).2 with
        | none =>
          rw [hrest] at hshare
          cases hshare
        | some margin =>
          rw [hrest, Option.elim_some, Margin.shares_ids] at hshare
          obtain ⟨x, hx, hid⟩ := List.mem_map.mp hshare
          have hmargin : margin ∈ (coverage volume (book.tiers own side price)).2 :=
            Option.mem_def.mpr hrest
          obtain rfl := List.inj_on_of_nodup_map hids (hown hmargin hx).1 ho hid
          rw [readOf_margin inStep priority volume price hids hmargin hx]
          exact (hwithin margin hmargin).1 x hx
    · rw [readOf_of_notMem hmem]
      refine hfits.nonneg _ (List.mem_cons_of_mem _ (List.mem_append_right _ ?_))
      exact List.mem_map_of_mem (List.mem_filter.mpr ⟨ho, by simpa using hside⟩)

end

def UncrossOutcome.allotment (outcome : UncrossOutcome) (o : Order) : Decimal :=
  (outcome.allotted.get? o.orderId).getD 0

def SimulationConfig.inStep (c : SimulationConfig) (assetId : String) (quantity : Decimal) :
    Decimal :=
  inSteps (c.tradingStep assetId quantity) quantity

theorem waiting_ids_nodup (s : SimState) (assetId : String) (ended : Instant) :
    ((s.waiting assetId ended).map (·.orderId)).Nodup := by
  have hworking : (s.pipeline.workingIn assetId).map (·.orderId) =
      s.pipeline.orders.workingOrdersFor assetId := by
    have hread : ∀ orderIds : List String,
        (∀ orderId ∈ orderIds, ∃ o, s.pipeline.orders.get? orderId = some o) →
        (orderIds.filterMap s.pipeline.orders.get?).map (·.orderId) = orderIds := by
      intro orderIds
      induction orderIds with
      | nil => exact fun _ => rfl
      | cons orderId orderIds ih =>
        intro h
        obtain ⟨o, ho⟩ := h orderId (by simp)
        rw [List.filterMap_cons_some ho, List.map_cons, Register.key_of_get? ho,
          ih fun x hx => h x (by simp [hx])]
    refine hread _ fun orderId hmem => ?_
    obtain ⟨o, ho, -⟩ := mem_workingOrdersFor.mp hmem
    exact ⟨o, ho⟩
  refine List.Nodup.sublist (List.filter_sublist.map _) ?_
  rw [hworking]
  exact workingOrdersFor_nodup _ _

section
variable {s : SimState} {c : SimulationConfig} {controls : TradingControls} {assetId : String}
  {halt : TradingHalt} {rule : AuctionUncross} {ended : Instant} {book : AuctionInterest}
  {price : Decimal}

theorem computedUncross_some (hbook : controls.auctionBook assetId halt.start = some book)
    (hprice : (s.computedUncross c controls assetId halt rule ended).price = some price) :
    book.Maximises (s.waiting assetId ended) rule.tieBreak (controls.reference assetId) price ∧
    (s.computedUncross c controls assetId halt rule ended).matched =
      some (book.matchedAt (s.waiting assetId ended) price) ∧
    (s.computedUncross c controls assetId halt rule ended).allotted =
      (Dict.empty.setAll (book.fills (c.inStep assetId) rule.priority
        (book.matchedAt (s.waiting assetId ended) price) price (s.waiting assetId ended)
        .buy)).setAll (book.fills (c.inStep assetId) rule.priority
        (book.matchedAt (s.waiting assetId ended) price) price (s.waiting assetId ended) .sell) := by
  unfold SimState.computedUncross at hprice ⊢
  rw [hbook] at hprice ⊢
  simp only at hprice ⊢
  split_ifs at hprice ⊢ with hnone hmost
  cases hchosen : rule.tieBreak.choose (controls.reference assetId)
      (tiedPrices (SimState.ranked book (s.waiting assetId ended))) with
  | none =>
    rw [hchosen] at hprice
    cases hprice
  | some chosen =>
    rw [hchosen] at hprice
    obtain rfl : chosen.price = price := Option.some.inj hprice
    obtain ⟨hmaximises, hmatched⟩ := chosen_maximises hchosen
    refine ⟨hmaximises, congrArg some hmatched.symm, ?_⟩
    rw [hmatched]
    simp only [allotTiers_eq]
    rfl

end

/-! ## Three orders for two units -/

def oneUnitBid (orderId : String) : Order where
  orderId := orderId
  strategyId := "A"
  assetId := "X"
  side := .buy
  orderType := .limit
  status := .accepted
  quantity := 1
  filledQuantity := 0
  limitPrice := some 10
  stopPrice := none
  averageFillPrice := 0
  createdAt := 0
  updatedAt := 0

def threeBids : SimState :=
  { printedRun with pipeline := { printedRun.pipeline with
      orders := ((Register.empty.put (oneUnitBid "1")).put (oneUnitBid "2")).put
        (oneUnitBid "3") } }

def twoOffered : AuctionInterest := { offers := [(10, 2)] }

def twoOfferedControls : TradingControls := { auctionBook := fun _ _ => some twoOffered }

def proRataUncross : AuctionUncross := { tieBreak := .lowest, priority := .proRata }

def shortHalt : TradingHalt := { start := 0, «end» := some 1 }

end AlphaLab
