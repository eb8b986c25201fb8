/-
  A book of positions keeps what a fresh one would compute (`portfolio/book.py`).

  * `contribution` is what one position is in the totals of its currency, `tallyOf` what the
    positions of a mapping sum to; `Sound` amounts are nothing where nothing is counted;
  * `share` is what a holding is in a group, and `moveGross_keeps`: moving a holding moves
    exactly its share.
-/
import AlphaLab.Lib.Tally
import AlphaLab.Portfolio.Book

namespace AlphaLab

open Fallible Tally

/-! ## Sums of totals -/

namespace CurrencyTotals

instance : Add CurrencyTotals := ⟨fun t u => ⟨t.positions + u.positions, t.longs + u.longs,
  t.shorts + u.shorts, t.longValue + u.longValue, t.shortValue + u.shortValue,
  t.unrealizedPnl + u.unrealizedPnl, t.uncarriedValue + u.uncarriedValue⟩⟩

instance : Neg CurrencyTotals := ⟨fun t => ⟨-t.positions, -t.longs, -t.shorts, -t.longValue,
  -t.shortValue, -t.unrealizedPnl, -t.uncarriedValue⟩⟩

instance : Sub CurrencyTotals := ⟨fun t u => t + -u⟩

instance : AddCommGroup CurrencyTotals where
  add_assoc t u v := by
    ext <;> exact add_assoc _ _ _
  zero_add t := by
    ext <;> exact zero_add _
  add_zero t := by
    ext <;> exact add_zero _
  neg_add_cancel t := by
    ext <;> exact neg_add_cancel _
  add_comm t u := by
    ext <;> exact add_comm _ _
  nsmul := nsmulRec
  zsmul := zsmulRec

def size : CurrencyTotals →+ ℤ where
  toFun := positions
  map_zero' := rfl
  map_add' _ _ := rfl

/-- **Totals that may be sums over positions**: no count is negative, and a total is nothing
    where none of the positions it sums is left. -/
structure Sound (t : CurrencyTotals) : Prop where
  longs_nonneg : 0 ≤ t.longs
  shorts_nonneg : 0 ≤ t.shorts
  open_le : t.longs + t.shorts ≤ t.positions
  longValue_eq : t.longs = 0 → t.longValue = 0
  shortValue_eq : t.shorts = 0 → t.shortValue = 0
  unrealized_eq : t.longs + t.shorts = 0 → t.unrealizedPnl = 0
  uncarried_eq : t.longs + t.shorts = 0 → t.uncarriedValue = 0

/-- The totals that may be sums over positions are closed under sums. -/
def sound : AddSubmonoid CurrencyTotals where
  carrier := {t | t.Sound}
  zero_mem' := by
    constructor <;> intros <;> rfl
  add_mem' := by
    rintro t u ht hu
    obtain ⟨hl, hs, ho, hlv, hsv, hp, hc⟩ := ht
    obtain ⟨hl', hs', ho', hlv', hsv', hp', hc'⟩ := hu
    constructor
    · exact add_nonneg hl hl'
    · exact add_nonneg hs hs'
    · change t.longs + u.longs + (t.shorts + u.shorts) ≤ t.positions + u.positions
      omega
    · intro (h : t.longs + u.longs = 0)
      change t.longValue + u.longValue = 0
      rw [hlv (by omega), hlv' (by omega), add_zero]
    · intro (h : t.shorts + u.shorts = 0)
      change t.shortValue + u.shortValue = 0
      rw [hsv (by omega), hsv' (by omega), add_zero]
    · intro (h : t.longs + u.longs + (t.shorts + u.shorts) = 0)
      change t.unrealizedPnl + u.unrealizedPnl = 0
      rw [hp (by omega), hp' (by omega), add_zero]
    · intro (h : t.longs + u.longs + (t.shorts + u.shorts) = 0)
      change t.uncarriedValue + u.uncarriedValue = 0
      rw [hc (by omega), hc' (by omega), add_zero]

theorem Sound.counted {t : CurrencyTotals} (h : t.Sound) : t ∈ Counted size := by
  obtain ⟨hl, hs, ho, hlv, hsv, hp, hc⟩ := h
  refine ⟨(add_nonneg hl hs).trans ho, fun (hzero : t.positions = 0) => ?_⟩
  have hlongs : t.longs = 0 := by omega
  have hshorts : t.shorts = 0 := by omega
  have hopen : t.longs + t.shorts = 0 := by omega
  ext
  · exact hzero
  · exact hlongs
  · exact hshorts
  · exact hlv hlongs
  · exact hsv hshorts
  · exact hp hopen
  · exact hc hopen

end CurrencyTotals

/-! ## What a position contributes -/

namespace Position

variable (p : Position)

def contribution : CurrencyTotals where
  positions := 1
  longs := if 0 < p.quantity then 1 else 0
  shorts := if p.quantity < 0 then 1 else 0
  longValue := if 0 < p.quantity then p.marketValue else 0
  shortValue := if p.quantity < 0 then p.marketValue else 0
  unrealizedPnl := p.unrealizedPnl
  uncarriedValue := p.entry.uncarried

theorem marketValue_of_flat (h : p.quantity = 0) : p.marketValue = 0 := by
  rw [marketValue, h, zero_multiply]
  simp [scaled]

theorem contribution_sound : p.contribution.Sound := by
  have hflat : p.contribution.longs + p.contribution.shorts = 0 → p.quantity = 0 := by
    intro h
    by_contra hne
    rcases lt_or_gt_of_ne hne with hlt | hgt
    · simp [contribution, hlt, hlt.not_gt] at h
    · simp [contribution, hgt, hgt.not_gt] at h
  constructor
  · change 0 ≤ if 0 < p.quantity then (1 : ℤ) else 0
    split_ifs <;> omega
  · change 0 ≤ if p.quantity < 0 then (1 : ℤ) else 0
    split_ifs <;> omega
  · change (if 0 < p.quantity then (1 : ℤ) else 0) + (if p.quantity < 0 then 1 else 0) ≤ 1
    split_ifs with hlong hshort
    · exact absurd hshort hlong.not_gt
    all_goals omega
  · intro h
    refine if_neg fun hlong => ?_
    simp [contribution, hlong] at h
  · intro h
    refine if_neg fun hshort => ?_
    simp [contribution, hshort] at h
  · intro h
    simp [contribution, unrealizedPnl, hflat h]
  · intro h
    simp [contribution, entry, unrealizedPnl, marketValue_of_flat p (hflat h), hflat h]

@[simp] theorem size_contribution : CurrencyTotals.size p.contribution = 1 := rfl

def signedContribution (sign : ℤ) : CurrencyTotals where
  positions := sign
  longs := if 0 < p.quantity then sign else 0
  shorts := if p.quantity < 0 then sign else 0
  longValue := if 0 < p.quantity then sign * p.marketValue else 0
  shortValue := if p.quantity < 0 then sign * p.marketValue else 0
  unrealizedPnl := sign * p.unrealizedPnl
  uncarriedValue := sign * p.entry.uncarried

theorem signedContribution_one : p.signedContribution 1 = p.contribution := by
  simp [signedContribution, contribution]

theorem signedContribution_neg_one : p.signedContribution (-1) = -p.contribution := by
  ext
  · rfl
  · change (if 0 < p.quantity then (-1 : ℤ) else 0) = -(if 0 < p.quantity then 1 else 0)
    split_ifs <;> rfl
  · change (if p.quantity < 0 then (-1 : ℤ) else 0) = -(if p.quantity < 0 then 1 else 0)
    split_ifs <;> rfl
  · change (if 0 < p.quantity then ((-1 : ℤ) : Decimal) * p.marketValue else 0) =
      -(if 0 < p.quantity then p.marketValue else 0)
    split_ifs <;> simp
  · change (if p.quantity < 0 then ((-1 : ℤ) : Decimal) * p.marketValue else 0) =
      -(if p.quantity < 0 then p.marketValue else 0)
    split_ifs <;> simp
  · change ((-1 : ℤ) : Decimal) * p.unrealizedPnl = -p.unrealizedPnl
    simp
  · change ((-1 : ℤ) : Decimal) * p.entry.uncarried = -p.entry.uncarried
    simp

end Position

/-! ## The updates are exact -/

variable {total amount sum : Decimal}

theorem exactSum_ok (h : exactSum total amount = .ok sum) : sum = total + amount := by
  obtain ⟨_, -, h⟩ := bind_ok.mp h
  exact (pure_ok.mp h).symm

variable {count : ℤ}

theorem addCounted_ok (h : addCounted total amount count = .ok sum)
    (hzero : count = 0 → total + amount = 0) : sum = total + amount := by
  by_cases hc : count = 0
  · rw [← pure_ok.mp ((if_pos hc).symm.trans h), hzero hc]
  · exact exactSum_ok ((if_neg hc).symm.trans h)

theorem addOnSide_ok {onSide : Bool} (h : addOnSide onSide total amount count = .ok sum)
    (hzero : onSide = true → count = 0 → total + amount = 0) :
    sum = total + if onSide = true then amount else 0 := by
  by_cases hside : onSide = true
  · rw [if_pos hside]
    exact addCounted_ok ((if_pos hside).symm.trans h) (hzero hside)
  · rw [if_neg hside, add_zero]
    exact (pure_ok.mp ((if_neg hside).symm.trans h)).symm

namespace CurrencyTotals

variable {t t' : CurrencyTotals} {p : Position}

/-- **A position added or removed is its signed contribution added.** -/
theorem applyTo_eq {sign : ℤ} (h : t.applyTo p p.entry sign = .ok t')
    (hsound : (t + p.signedContribution sign).Sound) : t' = t + p.signedContribution sign := by
  obtain ⟨longValue, hlongValue, h⟩ := bind_ok.mp h
  obtain ⟨shortValue, hshortValue, h⟩ := bind_ok.mp h
  obtain ⟨unrealized, hunrealized, h⟩ := bind_ok.mp h
  obtain ⟨settled, hsettled, h⟩ := bind_ok.mp h
  obtain rfl := pure_ok.mp h
  have hlongs : (if 0 < p.quantity then t.longs + sign else t.longs) =
      (t + p.signedContribution sign).longs := by
    change _ = t.longs + if 0 < p.quantity then sign else 0
    split_ifs <;> simp
  have hshorts : (if p.quantity < 0 then t.shorts + sign else t.shorts) =
      (t + p.signedContribution sign).shorts := by
    change _ = t.shorts + if p.quantity < 0 then sign else 0
    split_ifs <;> simp
  rw [hlongs] at hlongValue hunrealized hsettled ⊢
  rw [hshorts] at hshortValue hunrealized hsettled ⊢
  have hlongTotal : longValue = (t + p.signedContribution sign).longValue := by
    have htotal : (t + p.signedContribution sign).longValue =
        t.longValue + if 0 < p.quantity then sign * p.marketValue else 0 := rfl
    rw [htotal]
    refine (addOnSide_ok hlongValue fun hlong hzero => ?_).trans (by simp [Position.entry])
    rw [← hsound.longValue_eq hzero, htotal, if_pos (of_decide_eq_true hlong)]
    rfl
  have hshortTotal : shortValue = (t + p.signedContribution sign).shortValue := by
    have htotal : (t + p.signedContribution sign).shortValue =
        t.shortValue + if p.quantity < 0 then sign * p.marketValue else 0 := rfl
    rw [htotal]
    refine (addOnSide_ok hshortValue fun hshort hzero => ?_).trans (by simp [Position.entry])
    rw [← hsound.shortValue_eq hzero, htotal, if_pos (of_decide_eq_true hshort)]
    rfl
  rw [hlongTotal, hshortTotal, addCounted_ok hunrealized hsound.unrealized_eq,
    addCounted_ok hsettled hsound.uncarried_eq]
  rfl

theorem applyTo_add (h : t.applyTo p p.entry 1 = .ok t') (hsound : (t + p.contribution).Sound) :
    t' = t + p.contribution := by
  rw [← p.signedContribution_one] at hsound ⊢
  exact applyTo_eq h hsound

theorem applyTo_remove (h : t.applyTo p p.entry (-1) = .ok t')
    (hsound : (t - p.contribution).Sound) : t' = t - p.contribution := by
  rw [sub_eq_add_neg, ← p.signedContribution_neg_one] at hsound ⊢
  exact applyTo_eq h hsound

/-- **A position re-valued on its side is its contribution put in the place of the old.** -/
theorem movedTo_eq {p' : Position} (hside : PositionBook.sameSide p p' = true)
    (h : t.movedTo (0 < p'.quantity) p.entry p'.entry = .ok t')
    (hsound : (t - p.contribution + p'.contribution).Sound) :
    t' = t - p.contribution + p'.contribution := by
  obtain ⟨valueChange, hvalue, h⟩ := bind_ok.mp h
  obtain ⟨longValue, hlongValue, h⟩ := bind_ok.mp h
  obtain ⟨shortValue, hshortValue, h⟩ := bind_ok.mp h
  obtain ⟨pnlChange, hpnl, h⟩ := bind_ok.mp h
  obtain ⟨unrealized, hunrealized, h⟩ := bind_ok.mp h
  obtain ⟨uncarriedChange, huncarried, h⟩ := bind_ok.mp h
  obtain ⟨settled, hsettled, h⟩ := bind_ok.mp h
  obtain rfl := pure_ok.mp h
  obtain rfl := exactSum_ok hvalue
  obtain rfl := exactSum_ok hpnl
  obtain rfl := exactSum_ok huncarried
  -- both positions count on one side, so the counts stand
  have hsides : (0 < p.quantity ∧ 0 < p'.quantity) ∨ (p.quantity < 0 ∧ p'.quantity < 0) := by
    simp only [PositionBook.sameSide, Bool.and_eq_true, Bool.or_eq_true, decide_eq_true_eq] at hside
    exact hside.2
  have hlongs : (t - p.contribution + p'.contribution).longs = t.longs := by
    change t.longs + -(if 0 < p.quantity then 1 else 0) + (if 0 < p'.quantity then 1 else 0) = _
    rcases hsides with ⟨hq, hq'⟩ | ⟨hq, hq'⟩
    · rw [if_pos hq, if_pos hq', neg_add_cancel_right]
    · rw [if_neg hq.not_gt, if_neg hq'.not_gt, neg_zero, add_zero, add_zero]
  have hshorts : (t - p.contribution + p'.contribution).shorts = t.shorts := by
    change t.shorts + -(if p.quantity < 0 then 1 else 0) + (if p'.quantity < 0 then 1 else 0) = _
    rcases hsides with ⟨hq, hq'⟩ | ⟨hq, hq'⟩
    · rw [if_neg hq.not_gt, if_neg hq'.not_gt, neg_zero, add_zero, add_zero]
    · rw [if_pos hq, if_pos hq', neg_add_cancel_right]
  have hlongTotal : (t - p.contribution + p'.contribution).longValue =
      t.longValue + if 0 < p'.quantity then p'.marketValue + -p.marketValue else 0 := by
    change t.longValue + -(if 0 < p.quantity then p.marketValue else 0) +
      (if 0 < p'.quantity then p'.marketValue else 0) = _
    rcases hsides with ⟨hq, hq'⟩ | ⟨hq, hq'⟩
    · simp only [if_pos hq, if_pos hq']
      ring
    · simp only [if_neg hq.not_gt, if_neg hq'.not_gt]
      ring
  have hshortTotal : (t - p.contribution + p'.contribution).shortValue =
      t.shortValue + if p'.quantity < 0 then p'.marketValue + -p.marketValue else 0 := by
    change t.shortValue + -(if p.quantity < 0 then p.marketValue else 0) +
      (if p'.quantity < 0 then p'.marketValue else 0) = _
    rcases hsides with ⟨hq, hq'⟩ | ⟨hq, hq'⟩
    · simp only [if_neg hq.not_gt, if_neg hq'.not_gt]
      ring
    · simp only [if_pos hq, if_pos hq']
      ring
  have hpnlTotal : (t - p.contribution + p'.contribution).unrealizedPnl =
      t.unrealizedPnl + (p'.unrealizedPnl + -p.unrealizedPnl) := by
    change t.unrealizedPnl + -p.unrealizedPnl + p'.unrealizedPnl = _
    ring
  have huncarriedTotal : (t - p.contribution + p'.contribution).uncarriedValue =
      t.uncarriedValue + (p'.entry.uncarried + -p.entry.uncarried) := by
    change t.uncarriedValue + -p.entry.uncarried + p'.entry.uncarried = _
    ring
  have hshortSide : (!decide (0 < p'.quantity)) = decide (p'.quantity < 0) := by
    rcases hsides with ⟨-, hq'⟩ | ⟨-, hq'⟩
    · simp [hq', hq'.le]
    · simp [hq', hq'.le]
  rw [hshortSide] at hshortValue
  obtain ⟨-, -, -, hlong, hshort, hopen, hopen'⟩ := hsound
  rw [hlongs, hlongTotal] at hlong
  rw [hshorts, hshortTotal] at hshort
  rw [hlongs, hshorts, hpnlTotal] at hopen
  rw [hlongs, hshorts, huncarriedTotal] at hopen'
  ext
  · change t.positions = t.positions + -1 + 1
    omega
  · exact hlongs.symm
  · exact hshorts.symm
  · refine (addOnSide_ok hlongValue fun hq hzero => ?_).trans (by rw [hlongTotal]; simp; rfl)
    have htotal := hlong hzero
    rwa [if_pos (of_decide_eq_true hq)] at htotal
  · refine (addOnSide_ok hshortValue fun hq hzero => ?_).trans (by rw [hshortTotal]; simp; rfl)
    have htotal := hshort hzero
    rwa [if_pos (of_decide_eq_true hq)] at htotal
  · exact (addCounted_ok hunrealized hopen).trans hpnlTotal.symm
  · exact (addCounted_ok hsettled hopen').trans huncarriedTotal.symm

end CurrencyTotals

/-! ## The totals of a mapping -/

def Position.inCurrency (p : Position) (currency : String) : CurrencyTotals :=
  if p.currency = currency then p.contribution else 0

def tallyOf (positions : Dict String Position) (currency : String) : CurrencyTotals :=
  positions.sum fun _ p => p.inCurrency currency

theorem Position.inCurrency_sound (p : Position) (currency : String) :
    p.inCurrency currency ∈ CurrencyTotals.sound := by
  rw [inCurrency]
  split_ifs
  · exact p.contribution_sound
  · exact CurrencyTotals.sound.zero_mem

theorem tallyOf_sound (positions : Dict String Position) (currency : String) :
    tallyOf positions currency ∈ CurrencyTotals.sound := by
  refine CurrencyTotals.sound.list_sum_mem fun t ht => ?_
  obtain ⟨e, -, rfl⟩ := List.mem_map.mp ht
  exact e.2.inCurrency_sound currency

section
variable {positions : Dict String Position} {asset : String} {p q : Position} {currency : String}

theorem tallyOf_delete (h : positions.get? asset = some q) :
    tallyOf (positions.delete asset) currency =
      tallyOf positions currency - q.inCurrency currency := by
  rw [tallyOf, Dict.sum_delete, Dict.sumAt, h]
  rfl

theorem tallyOf_set : tallyOf (positions.set asset p) currency =
    tallyOf (positions.delete asset) currency + p.inCurrency currency := by
  rw [tallyOf, Dict.sum_set, tallyOf, Dict.sum_delete]

end

/-- A table reads the totals `R`, of a currency it does not have as nothing. -/
def TotalsTable.Reads (totals : TotalsTable) (R : String → CurrencyTotals) : Prop :=
  ∀ currency, (totals.get? currency).getD 0 = R currency

section
variable {totals totals' : TotalsTable} {R R' : String → CurrencyTotals} {p : Position}

theorem reads_of_keeps (h : Keeps CurrencyTotals.size totals R)
    (hR : ∀ currency, R currency ∈ CurrencyTotals.sound) : totals.Reads R :=
  fun currency => h.getD (hR currency).counted

theorem reads_set {currency : String} (h : totals.Reads R)
    (hothers : ∀ c, c ≠ currency → R' c = R c) :
    TotalsTable.Reads (totals.set currency (R' currency)) R' := by
  intro c
  rw [Dict.get?_set]
  split_ifs with hc
  · rw [hc, Option.getD_some]
  · rw [h c, hothers c hc]

theorem keeps_kept (h : totals.Reads R) : Keeps CurrencyTotals.size totals.kept R := by
  have hfilter : ∀ currency, totals.kept.get? currency =
      (totals.get? currency).filter fun t => decide (t.positions ≠ 0) := by
    intro currency
    refine Option.ext fun t => ?_
    rw [Dict.get?_eq_some, TotalsTable.kept, List.mem_filter, ← Dict.get?_eq_some,
      Option.filter_eq_some_iff]
  intro currency
  rw [hfilter, ← h currency]
  cases totals.get? currency with
  | none => rfl
  | some t =>
    change (if decide (t.positions ≠ 0) = true then some t else none) =
      if t.positions = 0 then none else some t
    by_cases hzero : t.positions = 0 <;> simp [hzero]

theorem enter_ok (h : PositionBook.enter totals p = .ok totals') (hreads : totals.Reads R)
    (hR : ∀ currency, R currency ∈ CurrencyTotals.sound) :
    totals' = totals.set p.currency (R p.currency + p.contribution) := by
  obtain ⟨added, hadded, h⟩ := bind_ok.mp h
  rw [hreads] at hadded
  obtain rfl := CurrencyTotals.applyTo_add hadded
    (CurrencyTotals.sound.add_mem (hR _) p.contribution_sound)
  exact (pure_ok.mp h).symm

theorem enter_reads (h : PositionBook.enter totals p = .ok totals') (hreads : totals.Reads R)
    (hR : ∀ currency, R currency ∈ CurrencyTotals.sound) :
    totals'.Reads fun currency => R currency + p.inCurrency currency := by
  rw [enter_ok h hreads hR]
  have hothers : ∀ c, c ≠ p.currency → R c + p.inCurrency c = R c := fun c hc => by
    simp [Position.inCurrency, hc.symm]
  have hset := reads_set hreads hothers
  simpa [Position.inCurrency] using hset

theorem enter_keeps (h : PositionBook.enter totals p = .ok totals')
    (hkeeps : Keeps CurrencyTotals.size totals R)
    (hR : ∀ currency, R currency ∈ CurrencyTotals.sound) :
    Keeps CurrencyTotals.size totals' fun currency => R currency + p.inCurrency currency := by
  rw [enter_ok h (reads_of_keeps hkeeps hR) hR]
  refine hkeeps.moved ?_ (by simp [Position.inCurrency]) fun c hc => by
    simp [Position.inCurrency, hc.symm]
  have hcount := (hR p.currency).counted.1
  rw [map_add, Position.size_contribution]
  omega

/-- **Positions walked once are summed**, currency by currency. -/
theorem enterAll_keeps {l : List Position} (h : l.foldlM PositionBook.enter totals = .ok totals')
    (hkeeps : Keeps CurrencyTotals.size totals R)
    (hR : ∀ currency, R currency ∈ CurrencyTotals.sound) :
    Keeps CurrencyTotals.size totals' fun currency =>
      R currency + (l.map (·.inCurrency currency)).sum := by
  induction l generalizing totals R with
  | nil =>
    obtain rfl := pure_ok.mp h
    simpa using hkeeps
  | cons p l ih =>
    rw [List.foldlM_cons] at h
    obtain ⟨mid, hmid, h⟩ := bind_ok.mp h
    have hrest := ih h (enter_keeps hmid hkeeps hR) fun currency =>
      CurrencyTotals.sound.add_mem (hR currency) (p.inCurrency_sound currency)
    simpa only [List.map_cons, List.sum_cons, add_assoc] using hrest

end

/-! ## Gross by group -/

abbrev grossSize : ℤ × Decimal →+ ℤ := AddMonoidHom.fst ℤ Decimal

def share (key : GroupKey) (group : String × String) (held : HeldValue) : ℤ × Decimal :=
  if key = ⟨group.1, group.2, held.1⟩ then (1, |held.2|) else 0

def shares (key : GroupKey) (groups : List (String × String)) (held : Option HeldValue) :
    ℤ × Decimal :=
  (groups.map fun group => held.elim 0 (share key group)).sum

theorem share_counted (key : GroupKey) (group : String × String) (held : HeldValue) :
    share key group held ∈ Counted grossSize := by
  rw [share]
  split_ifs
  · exact ⟨zero_le_one, fun h => absurd h one_ne_zero⟩
  · exact (Counted grossSize).zero_mem

theorem shares_counted (key : GroupKey) (groups : List (String × String))
    (held : Option HeldValue) : shares key groups held ∈ Counted grossSize := by
  refine (Counted grossSize).list_sum_mem fun x hx => ?_
  obtain ⟨group, -, rfl⟩ := List.mem_map.mp hx
  cases held with
  | none => exact (Counted grossSize).zero_mem
  | some held => exact share_counted key group held

section
variable {T T' : GroupTotals} {R : GroupKey → ℤ × Decimal} {key : GroupKey} {old new : Decimal}

theorem removeGross_keeps (h : removeGross key old T = .ok T')
    (hkeeps : Keeps grossSize T fun k => R k + if k = key then (1, |old|) else 0) :
    Keeps grossSize T' R := by
  obtain ⟨⟨count, gross⟩, hget, h⟩ := bind_ok.mp h
  have hpair := hkeeps.eq_of_some (orRefuse_ok.mp hget)
  rw [if_pos rfl] at hpair
  have hothers : ∀ k, k ≠ key → R k = R k + if k = key then (1, |old|) else 0 := by
    intro k hk
    rw [if_neg hk, add_zero]
  have hcount : count = (R key).1 + 1 := congrArg Prod.fst hpair
  have hgross : gross = (R key).2 + |old| := congrArg Prod.snd hpair
  by_cases hone : count = 1
  · rw [← pure_ok.mp ((if_pos hone).symm.trans h)]
    refine hkeeps.gone ?_ hothers
    change (R key).1 = 0
    omega
  · obtain ⟨left, hleft, h⟩ := bind_ok.mp ((if_neg hone).symm.trans h)
    rw [← pure_ok.mp h]
    refine hkeeps.moved (sub_ne_zero.mpr hone) (Prod.ext ?_ ?_) hothers
    · change (R key).1 = count - 1
      omega
    · change (R key).2 = left
      rw [exactSum_ok hleft, hgross, add_neg_cancel_right]

theorem addGross_keeps (h : addGross key new T = .ok T') (hkeeps : Keeps grossSize T R)
    (hR : ∀ k, R k ∈ Counted grossSize) :
    Keeps grossSize T' fun k => R k + if k = key then (1, |new|) else 0 := by
  have hpair : (T.get? key).getD (0, 0) = R key := hkeeps.getD (hR key)
  rw [addGross, hpair] at h
  obtain ⟨grown, hgrown, h⟩ := bind_ok.mp h
  rw [← pure_ok.mp h]
  refine hkeeps.moved ?_ ?_ ?_
  · change (R key).1 + 1 ≠ 0
    have hcount : 0 ≤ (R key).1 := (hR key).1
    omega
  · rw [if_pos rfl, exactSum_ok hgrown]
    rfl
  · intro k hk
    rw [if_neg hk, add_zero]

theorem moveGross_keeps (h : moveGross key old new T = .ok T')
    (hkeeps : Keeps grossSize T fun k => R k + if k = key then (1, |old|) else 0)
    (hR : ∀ k, R k ∈ Counted grossSize) :
    Keeps grossSize T' fun k => R k + if k = key then (1, |new|) else 0 := by
  obtain ⟨⟨count, gross⟩, hget, h⟩ := bind_ok.mp h
  obtain ⟨change, hchange, h⟩ := bind_ok.mp h
  obtain ⟨moved, hmoved, h⟩ := bind_ok.mp h
  have hpair := hkeeps.eq_of_some (orRefuse_ok.mp hget)
  rw [if_pos rfl] at hpair
  have hcount : count = (R key).1 + 1 := congrArg Prod.fst hpair
  have hgross : gross = (R key).2 + |old| := congrArg Prod.snd hpair
  rw [← pure_ok.mp h]
  refine hkeeps.moved ?_ (Prod.ext ?_ ?_) ?_
  · change count ≠ 0
    have hpos : 0 ≤ (R key).1 := (hR key).1
    omega
  · rw [if_pos rfl, hcount]
    rfl
  · rw [if_pos rfl, exactSum_ok hmoved, exactSum_ok hchange, hgross]
    change (R key).2 + |new| = (R key).2 + |old| + (|new| + -|old|)
    ring
  · intro k hk
    rw [if_neg hk, if_neg hk]

variable {before after : Option HeldValue}

/-- **One group regrouped**: the old share of it out, the new one in. -/
theorem regroupOne_keeps {group : String × String} (h : regroupOne before after T group = .ok T')
    (hkeeps : Keeps grossSize T fun k => R k + before.elim 0 (share k group))
    (hR : ∀ k, R k ∈ Counted grossSize) :
    Keeps grossSize T' fun k => R k + after.elim 0 (share k group) := by
  cases before with
  | none =>
    have hplain : Keeps grossSize T R := by simpa using hkeeps
    cases after with
    | none =>
      rw [← pure_ok.mp h]
      exact hkeeps
    | some after => exact addGross_keeps h hplain hR
  | some before =>
    cases after with
    | none => simpa using removeGross_keeps h hkeeps
    | some after =>
      by_cases hcurrency : before.1 = after.1
      · have hmoved := (if_pos hcurrency).symm.trans h
        refine moveGross_keeps hmoved ?_ hR
        rw [← hcurrency]
        exact hkeeps
      · obtain ⟨mid, hmid, hadded⟩ := bind_ok.mp ((if_neg hcurrency).symm.trans h)
        exact addGross_keeps hadded (removeGross_keeps hmid hkeeps) hR

/-- **A holding moved in its groups.** -/
theorem regroup_keeps {groups : List (String × String)}
    (h : groups.foldlM (regroupOne before after) T = .ok T')
    (hkeeps : Keeps grossSize T fun k => R k + shares k groups before)
    (hR : ∀ k, R k ∈ Counted grossSize) :
    Keeps grossSize T' fun k => R k + shares k groups after := by
  induction groups generalizing T R with
  | nil =>
    rw [← pure_ok.mp h]
    exact hkeeps
  | cons group groups ih =>
    rw [List.foldlM_cons] at h
    obtain ⟨mid, hmid, h⟩ := bind_ok.mp h
    have hone := regroupOne_keeps (R := fun k => R k + shares k groups before) hmid
      (by simpa only [shares, List.map_cons, List.sum_cons, add_assoc, add_comm, add_left_comm]
        using hkeeps)
      fun k => (Counted grossSize).add_mem (hR k) (shares_counted k groups before)
    have hrest := ih (R := fun k => R k + after.elim 0 (share k group)) h
      (by simpa only [add_assoc, add_comm, add_left_comm] using hone)
      fun k => (Counted grossSize).add_mem (hR k) (by
        cases after with
        | none => exact (Counted grossSize).zero_mem
        | some after => exact share_counted k group after)
    simpa only [shares, List.map_cons, List.sum_cons, add_assoc] using hrest

end

end AlphaLab
