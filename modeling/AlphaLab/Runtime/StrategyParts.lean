/-
  Whose the parts of a position are (`runtime/execution_pipeline.py`: `_strategy_parts`).

  * `ClosesPart` is what the parts are asked of: a quantity on the side of the strategies'
    total, and no more of it; `DividedInFull` is what they should come to.
  * **The parts come to the quantity** (`divided_in_full_iff`) where it is the whole total, or
    it is whole as the shares are, or what the others' proportions leave is exact;
    `fraction_of_whole_shares_lost` is half a unit that no strategy gives up.
-/
import AlphaLab.Allocation.Pieces
import AlphaLab.Execution.Schedules
import AlphaLab.Lib.Contexts
import AlphaLab.Simulation.AuctionTiers

namespace AlphaLab

open Fallible Rounding

/-! ## What is divided -/

def totalHeld (shares : List (String × Decimal)) : Decimal := (shares.map Prod.snd).sum

/-- A quantity on the side of the strategies' total, and no more of it. -/
structure ClosesPart (shares : List (String × Decimal)) (closing : Decimal) : Prop where
  some : shares ≠ []
  held : ∀ s ∈ shares, s.2 ≠ 0
  side : 0 < closing * totalHeld shares
  within : |closing| ≤ |totalHeld shares|

def WithinShare (part share : Decimal) : Prop := 0 ≤ part * share ∧ |part| ≤ |share|

/-- The parts come to the quantity, each within its own share; whole ones are within a unit
    of their proportion. -/
structure DividedInFull (shares parts : List (String × Decimal)) (closing : Decimal) : Prop where
  sum : (parts.map Prod.snd).sum = closing
  within : closing ≠ totalHeld shares → List.Forall₂
    (fun part share => part.1 = share.1 ∧ WithinShare part.2 share.2) parts shares
  quota : OnGrid 1 closing → (∀ s ∈ shares, OnGrid 1 s.2) → List.Forall₂
    (fun part share => OnGrid 1 part.2 ∧ |part.2 - closing * share.2 / totalHeld shares| ≤ 1)
    parts shares

/-- The quantities are of one decimal place, and few enough digits for their products. -/
structure LeavesRoom (place : ℤ) (quantities : List Decimal) (closing : Decimal) : Prop where
  fine : place ≤ 0
  onPlace : ∀ q ∈ quantities, OnGrid (placeUnit place) q
  closing : OnGrid (placeUnit place) closing
  room : ((quantities.length : Decimal) + 4) * (quantities.map (|·|)).sum ^ 2 <
    placeUnit (2 * place + 32)

/-- What the other strategies' proportions leave of the quantity is what there is. -/
def RemainderKept (shares : List (String × Decimal)) (closing : Decimal) : Prop :=
  let others := shares.dropLast.map fun s =>
    divide (multiply closing s.2) (contextSum (shares.map Prod.snd))
  subtract closing (contextSum others) = closing - others.sum

theorem inContext_signed {sign : Decimal} (hsign : sign = 1 ∨ sign = -1) (x : Decimal) :
    inContext (sign * x) = sign * inContext x := by
  rcases hsign with rfl | rfl
  · rw [one_mul, one_mul]
  · rw [neg_one_mul, neg_one_mul]
    exact roundSig_odd 10 accountingPrecision x

theorem contextSum_signed {sign : Decimal} (hsign : sign = 1 ∨ sign = -1) (l : List Decimal) :
    contextSum (l.map (sign * ·)) = sign * contextSum l := by
  have hfold : ∀ a, (l.map (sign * ·)).foldl add (sign * a) = sign * l.foldl add a := by
    induction l with
    | nil => exact fun _ => rfl
    | cons x l ih =>
      intro a
      have hadd : add (sign * a) (sign * x) = sign * add a x := by
        rw [add, ← mul_add]
        exact inContext_signed hsign _
      rw [List.map_cons, List.foldl_cons, hadd, ih, List.foldl_cons]
  have h := hfold 0
  rwa [mul_zero] at h

theorem totalHeld_signed {sign : Decimal} {shares : List (String × Decimal)}
    (hsigned : ∀ s ∈ shares, s.2 = sign * |s.2|) :
    totalHeld shares = sign * (shares.map (|·.2|)).sum := by
  rw [← List.sum_map_mul_left, totalHeld]
  exact congrArg List.sum (List.map_congr_left hsigned)

/-! ## Room for products -/

theorem onGrid_size {u x : Decimal} (h : OnGrid u x) : OnGrid u |x| := by
  rcases abs_choice x with hx | hx <;> rw [hx]
  exacts [h, h.neg]

variable {x : Decimal}

namespace LeavesRoom

variable {place : ℤ} {quantities : List Decimal} {closing : Decimal}

theorem sizes_nonneg (quantities : List Decimal) : 0 ≤ (quantities.map (|·|)).sum := by
  refine List.sum_nonneg fun x hx => ?_
  obtain ⟨y, -, rfl⟩ := List.mem_map.mp hx
  exact abs_nonneg y

theorem placeUnit_add (a b : ℤ) : placeUnit (a + b) = placeUnit a * placeUnit b :=
  zpow_add₀ (by norm_num) a b

theorem placeUnit_mono {a b : ℤ} (h : a ≤ b) : placeUnit a ≤ placeUnit b :=
  zpow_le_zpow_right₀ (by norm_num) h

theorem square (h : LeavesRoom place quantities closing) :
    (quantities.map (|·|)).sum ^ 2 < placeUnit (2 * place + 32) := by
  nlinarith [h.room]

theorem small (h : LeavesRoom place quantities closing) :
    (quantities.map (|·|)).sum < placeUnit (place + 16) := by
  have hunit : 0 ≤ placeUnit (place + 16) := zpow_nonneg (by norm_num) _
  refine lt_of_pow_lt_pow_left₀ 2 hunit ?_
  rw [pow_two (placeUnit _), ← placeUnit_add]
  have hplace : place + 16 + (place + 16) = 2 * place + 32 := by ring
  rw [hplace]
  exact h.square

theorem sum_exact (h : LeavesRoom place quantities closing) :
    contextSum quantities = quantities.sum := by
  refine sumInContext_carried h.onPlace (h.small.trans_le (placeUnit_mono ?_))
  norm_num [accountingPrecision]

theorem multiply_exact (h : LeavesRoom place quantities closing) {x y : Decimal}
    (hx : OnGrid (placeUnit place) x) (hy : OnGrid (placeUnit place) y)
    (hxle : |x| ≤ (quantities.map (|·|)).sum) (hyle : |y| ≤ (quantities.map (|·|)).sum) :
    multiply x y = x * y := by
  refine roundSig_of_onGrid (by decide) (m := 2 * place) ?_ ?_
  · obtain ⟨k, rfl⟩ := hx
    obtain ⟨l, rfl⟩ := hy
    refine ⟨k * l, ?_⟩
    have hunit : ((10 : ℕ) : ℚ) ^ (2 * place) = placeUnit place * placeUnit place := by
      rw [two_mul]
      exact placeUnit_add place place
    rw [hunit]
    push_cast
    ring
  · rw [abs_mul]
    calc |x| * |y| ≤ (quantities.map (|·|)).sum ^ 2 := by
          rw [pow_two]
          exact mul_le_mul hxle hyle (abs_nonneg y) (sizes_nonneg quantities)
      _ < placeUnit (2 * place + 32) := h.square
      _ ≤ placeUnit (2 * place + accountingPrecision) :=
          placeUnit_mono (by norm_num [accountingPrecision])

theorem abs (h : LeavesRoom place quantities closing) :
    LeavesRoom place (quantities.map (|·|)) |closing| where
  fine := h.fine
  onPlace q hq := by
    obtain ⟨x, hx, rfl⟩ := List.mem_map.mp hq
    exact onGrid_size (h.onPlace x hx)
  closing := onGrid_size h.closing
  room := by
    simpa [List.map_map, Function.comp_def] using h.room

theorem le_sizes (hx : x ∈ quantities) : |x| ≤ (quantities.map (|·|)).sum := by
  refine List.single_le_sum ?_ _ (List.mem_map_of_mem hx)
  intro y hy
  obtain ⟨z, -, rfl⟩ := List.mem_map.mp hy
  exact abs_nonneg z

theorem carried (h : LeavesRoom place quantities closing) (hx : x ∈ quantities) :
    inContext |x| = |x| := by
  refine inContext_of_place (onGrid_size (h.onPlace x hx)) (abs_nonneg x) ?_
  exact (le_sizes hx).trans_lt (h.small.trans_le
    (placeUnit_mono (by norm_num [accountingPrecision])))

end LeavesRoom

/-! ## Whole units -/

theorem floor_proportion {total w whole : Decimal} (htotal : OnGrid 1 total) (hw : OnGrid 1 w)
    (hwhole : OnGrid 1 whole) (htotal0 : 0 ≤ total) (hw0 : 0 ≤ w) (hpos : 0 < whole)
    (htotalle : total ≤ whole) (hwle : w ≤ whole) (hsmall : 4 * whole ^ 2 < 10 ^ 32) :
    ⌊inContext (total * w / whole)⌋ = ⌊total * w / whole⌋ := by
  have hproduct : OnGrid 1 (total * w) := by
    obtain ⟨k, rfl⟩ := htotal
    obtain ⟨l, rfl⟩ := hw
    exact ⟨k * l, by push_cast; ring⟩
  have hone : 1 ≤ whole := by
    obtain ⟨k, rfl⟩ := hwhole
    rw [mul_one] at hpos ⊢
    have hk : 0 < k := by exact_mod_cast hpos
    exact_mod_cast hk
  have hle : total * w ≤ whole ^ 2 := by
    rw [pow_two]
    exact mul_le_mul htotalle hwle hw0 hpos.le
  refine (Context.floor_round_div
    (c := Context.halfEven (by decide) accountingPrecision (by decide)) (by decide) one_pos
    (mul_nonneg htotal0 hw0) hpos hproduct hwhole ?_).1
  have herror : (Context.halfEven (b := 10) (K := Decimal) (by decide) accountingPrecision
      (by decide)).error = 1 / 10 ^ 33 := by
    norm_num [Context.error, Context.halfEven, accountingPrecision]
  rw [herror]
  nlinarith

theorem forall₂_zip_units {R : ℤ → String × Decimal → Prop} (sign : Decimal) :
    ∀ {units : List ℤ} {shares : List (String × Decimal)}, List.Forall₂ R units shares →
      List.Forall₂ (fun part share => ∃ unit : ℤ, part = (share.1, sign * unit) ∧ R unit share)
        ((shares.map Prod.fst).zip (units.map fun unit : ℤ => sign * (unit : Decimal))) shares := by
  intro units shares h
  induction h with
  | nil => exact List.Forall₂.nil
  | cons hunit _ ih => exact List.Forall₂.cons ⟨_, rfl, hunit⟩ ih

theorem sum_wholeParts (shares : List (String × Decimal)) (closing : Decimal) :
    ((wholeParts shares closing).map Prod.snd).sum = (if 0 < closing then 1 else -1) *
      ((apportionUnits ⌊|closing|⌋ (shares.map (|·.2|))).sum : Decimal) := by
  rw [wholeParts, List.map_snd_zip, List.sum_map_mul_left, ← Int.cast_list_sum]
  rw [List.length_map, List.length_map]
  have hnear := (apportionUnits_near ⌊|closing|⌋ (shares.map (|·.2|))).length_eq
  rw [hnear, List.length_map, List.length_map]

section
variable {place : ℤ} {shares : List (String × Decimal)} {closing sign : Decimal}

structure OneSided (sign : Decimal) (shares : List (String × Decimal)) (closing : Decimal) :
    Prop where
  unit : sign = 1 ∨ sign = -1
  held : ∀ s ∈ shares, s.2 = sign * |s.2| ∧ 0 < |s.2|
  closes : closing = sign * |closing| ∧ 0 < |closing|

theorem OneSided.sign_eq (h : OneSided sign shares closing) :
    (if 0 < closing then 1 else -1) = sign := by
  obtain ⟨hclosing, hpos⟩ := h.closes
  rcases h.unit with rfl | rfl
  · rw [one_mul] at hclosing
    rw [if_pos (hclosing ▸ hpos)]
  · rw [if_neg]
    rw [hclosing]
    linarith

theorem OneSided.square (h : OneSided sign shares closing) : sign * sign = 1 := by
  rcases h.unit with rfl | rfl <;> norm_num

theorem OneSided.ne_zero (h : OneSided sign shares closing) : sign ≠ 0 := by
  rcases h.unit with rfl | rfl <;> norm_num

variable {s : String × Decimal}

theorem OneSided.proportion (h : OneSided sign shares closing) (hs : s ∈ shares) :
    closing * s.2 / totalHeld shares =
      sign * (|closing| * |s.2| / (shares.map (|·.2|)).sum) := by
  rw [totalHeld_signed fun s hs => (h.held s hs).1]
  nth_rewrite 1 [h.closes.1, (h.held s hs).1]
  rw [mul_mul_mul_comm, mul_assoc, mul_div_mul_left _ _ h.ne_zero, mul_div_assoc]

theorem OneSided.withinShare (h : OneSided sign shares closing) (hs : s ∈ shares) {size : Decimal}
    (hsize : 0 ≤ size) (hle : size ≤ |s.2|) : WithinShare (sign * size) s.2 := by
  constructor
  · rw [(h.held s hs).1, mul_mul_mul_comm, h.square, one_mul]
    exact mul_nonneg hsize (abs_nonneg _)
  · rw [abs_mul, abs_of_nonneg hsize]
    rcases h.unit with rfl | rfl <;> simpa using hle

theorem LeavesRoom.whole_room (h : LeavesRoom place (shares.map Prod.snd) closing) :
    ((shares.length : Decimal) + 4) * (shares.map (|·.2|)).sum ^ 2 < 10 ^ 32 := by
  have hroom := h.room
  rw [List.map_map, List.length_map] at hroom
  refine hroom.trans_le ((LeavesRoom.placeUnit_mono (b := 32) ?_).trans_eq ?_)
  · linarith [h.fine]
  · norm_num [placeUnit]

theorem forall₂_mem {α β : Type} {R : α → β → Prop} {l : List α} {l' : List β}
    (h : List.Forall₂ R l l') : List.Forall₂ (fun a b => b ∈ l' ∧ R a b) l l' := by
  induction h with
  | nil => exact List.Forall₂.nil
  | cons hhead _ ih =>
    refine List.Forall₂.cons ⟨List.mem_cons_self, hhead⟩ (ih.imp ?_)
    exact fun a b hab => ⟨List.mem_cons_of_mem _ hab.1, hab.2⟩

/-- **Whole units are apportioned in full**, each strategy's within its share, and within a
    unit of its proportion. -/
theorem wholeParts_within (hroom : LeavesRoom place (shares.map Prod.snd) closing)
    (hsided : OneSided sign shares closing) (hclosing : OnGrid 1 closing)
    (hwhole : ∀ s ∈ shares, OnGrid 1 s.2) (hless : |closing| < (shares.map (|·.2|)).sum) :
    ((wholeParts shares closing).map Prod.snd).sum = closing ∧
      List.Forall₂ (fun part share => (part.1 = share.1 ∧ WithinShare part.2 share.2) ∧
        OnGrid 1 part.2 ∧ |part.2 - closing * share.2 / totalHeld shares| ≤ 1)
        (wholeParts shares closing) shares := by
  have hexact := hroom.abs.sum_exact
  rw [List.map_map] at hexact
  change contextSum (shares.map (|·.2|)) = (shares.map (|·.2|)).sum at hexact
  have hfits := hroom.whole_room
  have hmost : ∀ s ∈ shares, |s.2| ≤ (shares.map (|·.2|)).sum := by
    intro s hs
    have hle := LeavesRoom.le_sizes (List.mem_map_of_mem (f := Prod.snd) hs)
    rwa [List.map_map] at hle
  have hproportion := fun s hs => hsided.proportion (s := s) hs
  generalize hsum : (shares.map (|·.2|)).sum = whole at hexact hless hfits hmost hproportion
  have hunits : OnGrid 1 |closing| := onGrid_size hclosing
  have htotal : ((⌊|closing|⌋ : ℤ) : Decimal) = |closing| := by
    obtain ⟨k, hk⟩ := hunits
    rw [hk, mul_one, Int.floor_intCast]
  have hgrid : OnGrid 1 whole := by
    rw [← hsum]
    refine OnGrid.sum fun x hx => ?_
    obtain ⟨s, hs, rfl⟩ := List.mem_map.mp hx
    exact onGrid_size (hwhole s hs)
  have hnonneg : ∀ w ∈ shares.map (|·.2|), 0 ≤ w := by
    intro w hw
    obtain ⟨s, -, rfl⟩ := List.mem_map.mp hw
    exact abs_nonneg _
  have hpos : 0 < whole := hsided.closes.2.trans hless
  have hmore : |closing| + 1 ≤ whole := by
    obtain ⟨k, hk⟩ := hunits
    obtain ⟨l, hl⟩ := hgrid
    rw [hk, hl, mul_one, mul_one] at hless ⊢
    exact_mod_cast hless
  have hone : 1 ≤ whole := by linarith [abs_nonneg closing]
  constructor
  · have hfew : (((shares.map (|·.2|)).length : Decimal) + 3) * ((⌊|closing|⌋ : ℤ) + 1) <
        2 * 10 ^ 33 := by
      rw [List.length_map, htotal]
      calc ((shares.length : Decimal) + 3) * (|closing| + 1)
          ≤ ((shares.length : Decimal) + 4) * whole ^ 2 := by
            refine mul_le_mul (by linarith) ?_ (by positivity) (by linarith)
            rw [pow_two]
            exact hmore.trans (le_mul_of_one_le_left hpos.le hone)
        _ < 10 ^ 32 := hfits
        _ < 2 * 10 ^ 33 := by norm_num
    have hall := sum_apportionUnits (Int.floor_nonneg.mpr (abs_nonneg closing)) hnonneg
      (hsum ▸ hpos) hfew
    rw [sum_wholeParts, hsided.sign_eq, hall, htotal]
    exact hsided.closes.1.symm
  · have hnear := apportionUnits_near ⌊|closing|⌋ (shares.map (|·.2|))
    rw [List.map_map, List.forall₂_map_right_iff] at hnear
    rw [wholeParts, hsided.sign_eq]
    refine (forall₂_mem (forall₂_zip_units sign hnear)).imp ?_
    rintro part share ⟨hmem, unit, rfl, hunit⟩
    have hsize := (hsided.held share hmem).2
    have hmultiply : multiply |closing| |share.2| = |closing| * |share.2| := by
      refine hroom.multiply_exact (onGrid_size hroom.closing)
        (onGrid_size (hroom.onPlace _ (List.mem_map_of_mem hmem))) ?_ ?_
      all_goals rw [abs_abs, List.map_map]; change _ ≤ (shares.map (|·.2|)).sum; rw [hsum]
      exacts [hless.le, hmost share hmem]
    have hfloor : ⌊divide (multiply ((⌊|closing|⌋ : ℤ) : Decimal) |share.2|)
        (contextSum (shares.map (|·.2|)))⌋ = ⌊|closing| * |share.2| / whole⌋ := by
      rw [htotal, hmultiply, hexact]
      exact floor_proportion hunits (onGrid_size (hwhole share hmem)) hgrid (abs_nonneg _)
        (abs_nonneg _) hpos hless.le (hmost share hmem) (by nlinarith)
    simp only [Function.comp_apply, hfloor] at hunit
    rw [hproportion share hmem]
    -- the proportion is a whole number of units short of the share
    generalize hideal : |closing| * |share.2| / whole = ideal at hunit ⊢
    have hideal0 : 0 ≤ ideal := hideal ▸ div_nonneg (mul_nonneg (abs_nonneg _) hsize.le) hpos.le
    have hshort : ideal < |share.2| := by
      rw [← hideal, div_lt_iff₀ hpos, mul_comm]
      exact mul_lt_mul_of_pos_left hless hsize
    have hroof : (⌊ideal⌋ : Decimal) + 1 ≤ |share.2| := by
      obtain ⟨k, hk⟩ := onGrid_size (hwhole share hmem)
      rw [hk, mul_one] at hshort ⊢
      exact_mod_cast Int.floor_lt.mpr hshort
    have hbelow := Int.floor_le ideal
    have habove := Int.lt_floor_add_one ideal
    have hfloor0 : (0 : Decimal) ≤ ⌊ideal⌋ := by exact_mod_cast Int.floor_nonneg.mpr hideal0
    have hbounds : 0 ≤ (unit : Decimal) ∧ (unit : Decimal) ≤ |share.2| ∧
        |(unit : Decimal) - ideal| ≤ 1 := by
      rcases hunit with rfl | rfl
      · refine ⟨hfloor0, by linarith, abs_le.mpr ⟨by linarith, by linarith⟩⟩
      · push_cast
        refine ⟨by linarith, hroof, abs_le.mpr ⟨by linarith, by linarith⟩⟩
    refine ⟨⟨rfl, hsided.withinShare hmem hbounds.1 hbounds.2.1⟩, ?_, ?_⟩
    · rcases hsided.unit with rfl | rfl
      · exact ⟨unit, by ring⟩
      · exact ⟨-unit, by push_cast; ring⟩
    · rw [← mul_sub, abs_mul]
      rcases hsided.unit with rfl | rfl <;> simpa using hbounds.2.2

variable {whole : Decimal}

theorem proportion_within (hroom : LeavesRoom place (shares.map Prod.snd) closing) (hs : s ∈ shares)
    (hpos : 0 < whole) (hless : |closing| ≤ whole) : 0 ≤ inContext (|closing| * |s.2| / whole) ∧
      inContext (|closing| * |s.2| / whole) ≤ |s.2| := by
  have hmem := List.mem_map_of_mem (f := Prod.snd) hs
  have hcarried := hroom.carried hmem
  constructor
  · exact inContext_nonneg (div_nonneg (mul_nonneg (abs_nonneg _) (abs_nonneg _)) hpos.le)
  · nth_rewrite 2 [← hcarried]
    refine inContext_monotone ?_
    rw [div_le_iff₀ hpos, mul_comm]
    exact mul_le_mul_of_nonneg_left hless (abs_nonneg _)

/-- What rounded proportions come to is near what they are proportions of. -/
theorem contextSum_proportions {others : List Decimal} {part whole : Decimal}
    (hothers : ∀ w ∈ others, 0 ≤ w) (hpart : 0 ≤ part) (hpos : 0 < whole)
    (hfew : (others.length : Decimal) * relativeError ≤ 1) {sum : Decimal}
    (hsum : sum = contextSum (others.map fun w => inContext (part * w / whole))) :
    (1 - others.length * relativeError) * sum ≤
        (1 + relativeError) * (part * (others.sum / whole)) ∧
      (1 - (others.length + 1) * relativeError) * (part * (others.sum / whole)) ≤ sum := by
  obtain ⟨herr, herr1⟩ := relativeError_bounds
  have hideal : ∀ w ∈ others, 0 ≤ part * w / whole := fun w hw =>
    div_nonneg (mul_nonneg hpart (hothers w hw)) hpos.le
  have hnonneg : ∀ p ∈ others.map fun w => inContext (part * w / whole), 0 ≤ p := by
    intro p hp
    obtain ⟨w, hw, rfl⟩ := List.mem_map.mp hp
    exact inContext_nonneg (hideal w hw)
  have htotal : (others.map fun w => part * w / whole).sum = part * (others.sum / whole) := by
    have hscaled := List.sum_map_mul_left others (fun w => w) (part / whole)
    rw [List.map_id'] at hscaled
    rw [← mul_div_assoc, mul_comm part, mul_div_assoc, mul_comm, ← hscaled]
    exact congrArg List.sum (List.map_congr_left fun w _ => by ring)
  have htotal0 : 0 ≤ part * (others.sum / whole) :=
    mul_nonneg hpart (div_nonneg (List.sum_nonneg hothers) hpos.le)
  have hover : (others.map fun w => inContext (part * w / whole)).sum ≤
      (1 + relativeError) * (part * (others.sum / whole)) := by
    rw [← htotal, ← List.sum_map_mul_left]
    exact List.sum_le_sum fun w hw => inContext_le_mul (hideal w hw)
  have hunder : (1 - relativeError) * (part * (others.sum / whole)) ≤
      (others.map fun w => inContext (part * w / whole)).sum := by
    rw [← htotal, ← List.sum_map_mul_left]
    exact List.sum_le_sum fun w hw => mul_le_inContext (hideal w hw)
  have hkept : 1 - (others.length : Decimal) * relativeError ≤
      (1 - relativeError) ^ others.length := by
    have hbernoulli := one_add_mul_le_pow (a := -relativeError) (by linarith) others.length
    rw [← sub_eq_add_neg] at hbernoulli
    linarith
  have hupper := mul_foldl_add_le_sum hnonneg le_rfl
  have hlower := mul_sum_le_foldl_add hnonneg le_rfl
  rw [zero_add, List.length_map] at hupper hlower
  change _ * contextSum _ ≤ _ at hupper
  change _ ≤ contextSum _ at hlower
  have hsum0 := contextSum_nonneg hnonneg
  rw [← hsum] at hupper hlower hsum0
  constructor
  · exact ((mul_le_mul_of_nonneg_right hkept hsum0).trans hupper).trans hover
  · have hfirst := mul_le_mul_of_nonneg_right hkept
      ((mul_nonneg (by linarith) htotal0).trans hunder)
    have hsecond := mul_le_mul_of_nonneg_left hunder (sub_nonneg.mpr hfew)
    have hproduct : 0 ≤ (others.length : Decimal) * relativeError * relativeError *
        (part * (others.sum / whole)) := by positivity
    linarith

/-- What the other shares' proportions leave is within the last share. -/
theorem remainder_within {others : List Decimal} {last part unit whole sum : Decimal}
    (hothers : ∀ w ∈ others, 0 ≤ w) (hlast : unit ≤ last) (hunit : 0 < unit)
    (hpart : 0 < part) (hwhole : others.sum + last = whole) (hless : part + unit ≤ whole)
    (hroom : ((others.length : Decimal) + 5) * whole ^ 2 < unit ^ 2 * 10 ^ 32)
    (hcarried : inContext last = last)
    (hsum : sum = contextSum (others.map fun w => inContext (part * w / whole))) :
    0 ≤ subtract part sum ∧ subtract part sum ≤ last := by
  have hothers0 : 0 ≤ others.sum := List.sum_nonneg hothers
  have hpos : 0 < whole := by linarith
  obtain ⟨x, hx⟩ : ∃ x, x = last / whole := ⟨_, rfl⟩
  have hlastx : last = x * whole := by rw [hx, div_mul_cancel₀ _ hpos.ne']
  have hrest : others.sum / whole = 1 - x := by
    rw [div_eq_iff hpos.ne', sub_mul, ← hlastx, one_mul]
    linarith
  have hx1 : x ≤ 1 := by
    rw [hx, div_le_one hpos]
    linarith
  -- the last share outweighs what the roundings may lose
  obtain ⟨slack, hslack⟩ : ∃ slack, slack = ((others.length : Decimal) + 5) / 10 ^ 32 := ⟨_, rfl⟩
  have hslack0 : 0 ≤ slack := by rw [hslack]; positivity
  have hslackx : slack * whole ≤ unit * x := by
    have hscaled : slack * whole * whole ≤ unit * last := by
      have hsquare : unit * unit ≤ unit * last := mul_le_mul_of_nonneg_left hlast hunit.le
      have hroom' : slack * whole ^ 2 ≤ unit ^ 2 := by
        rw [hslack, div_mul_eq_mul_div, div_le_iff₀ (by norm_num)]
        exact hroom.le
      nlinarith
    rw [hlastx, ← mul_assoc] at hscaled
    exact le_of_mul_le_mul_right hscaled hpos
  have hlosses : ((others.length : Decimal) + 1) * relativeError ≤ slack := by
    rw [relativeError, hslack, mul_div_assoc', div_le_div_iff₀ (by norm_num) (by norm_num)]
    linarith
  have hx0 : 0 ≤ x := hx ▸ div_nonneg (hunit.le.trans hlast) hpos.le
  have hslacklex : slack ≤ x := by
    have hunitle : unit * x ≤ whole * x := mul_le_mul_of_nonneg_right (by linarith) hx0
    refine le_of_mul_le_mul_right ?_ hpos
    linarith
  obtain ⟨herr, herr1⟩ := relativeError_bounds
  obtain ⟨hupper, hlower⟩ := contextSum_proportions hothers hpart.le hpos (by linarith) hsum
  rw [hrest] at hupper hlower
  have hle : sum ≤ part := by
    have hkeeps : 0 < 1 - (others.length : Decimal) * relativeError := by linarith
    refine le_of_mul_le_mul_left (hupper.trans ?_) hkeeps
    have hfactor : (1 + relativeError) * (1 - x) ≤
        1 - (others.length : Decimal) * relativeError := by
      nlinarith
    calc (1 + relativeError) * (part * (1 - x))
        = (1 + relativeError) * (1 - x) * part := by ring
      _ ≤ _ := mul_le_mul_of_nonneg_right hfactor hpart.le
  constructor
  · exact inContext_nonneg (sub_nonneg.mpr hle)
  · rw [← hcarried]
    refine inContext_monotone ?_
    have hpartx : part * x ≤ last - unit * x := by
      rw [hlastx]
      have hscaled := mul_le_mul_of_nonneg_right hless hx0
      linarith
    have hloss : ((others.length : Decimal) + 1) * relativeError * (part * (1 - x)) ≤
        slack * whole := by
      have hinner : part * (1 - x) ≤ whole := by nlinarith
      exact mul_le_mul hlosses hinner (mul_nonneg hpart.le (by linarith)) hslack0
    linarith

/-- A strategy's proportion, by its size. -/
theorem OneSided.part_eq (h : OneSided sign shares closing)
    (hroom : LeavesRoom place (shares.map Prod.snd) closing)
    (hless : |closing| ≤ (shares.map (|·.2|)).sum) (hs : s ∈ shares) :
    divide (multiply closing s.2) (totalHeld shares) =
      sign * inContext (|closing| * |s.2| / (shares.map (|·.2|)).sum) := by
  have hmem := List.mem_map_of_mem (f := Prod.snd) hs
  have hsizes : ((shares.map Prod.snd).map (|·|)).sum = (shares.map (|·.2|)).sum := by
    rw [List.map_map]
    rfl
  rw [hroom.multiply_exact hroom.closing (hroom.onPlace _ hmem) (hless.trans_eq hsizes.symm)
    (LeavesRoom.le_sizes hmem), divide, h.proportion hs]
  exact inContext_signed h.unit _

theorem sum_proportionalParts (closing : Decimal) (hsome : shares ≠ []) :
    ((proportionalParts shares closing (contextSum (shares.map Prod.snd))).map Prod.snd).sum =
      closing ↔ RemainderKept shares closing := by
  obtain ⟨first, last, rfl⟩ : ∃ first last, shares = first ++ [last] :=
    ⟨_, _, (List.dropLast_append_getLast hsome).symm⟩
  simp only [proportionalParts, RemainderKept, List.dropLast_concat, List.getLast?_concat,
    Option.toList_some, List.map_append, List.map_map, List.map_cons, List.map_nil,
    List.sum_append, List.sum_cons, List.sum_nil, add_zero]
  exact eq_sub_iff_add_eq'.symm

theorem proportionalParts_within (hroom : LeavesRoom place (shares.map Prod.snd) closing)
    (hsided : OneSided sign shares closing) (hsome : shares ≠ [])
    (hless : |closing| < (shares.map (|·.2|)).sum) :
    List.Forall₂ (fun part share => part.1 = share.1 ∧ WithinShare part.2 share.2)
      (proportionalParts shares closing (contextSum (shares.map Prod.snd))) shares := by
  have hpart := fun s hs => hsided.part_eq hroom hless.le (s := s) hs
  have hpos : 0 < (shares.map (|·.2|)).sum := hsided.closes.2.trans hless
  have hwithin := fun s hs => proportion_within hroom (s := s) hs hpos hless.le
  have hexact : contextSum (shares.map Prod.snd) = totalHeld shares := hroom.sum_exact
  have hunit : 0 < placeUnit place := zpow_pos (by norm_num) _
  have hgrid : OnGrid (placeUnit place) (shares.map (|·.2|)).sum := by
    refine OnGrid.sum fun x hx => ?_
    obtain ⟨s, hs, rfl⟩ := List.mem_map.mp hx
    exact onGrid_size (hroom.onPlace _ (List.mem_map_of_mem hs))
  have hroom' : ((shares.length : Decimal) + 4) * (shares.map (|·.2|)).sum ^ 2 <
      placeUnit place ^ 2 * 10 ^ 32 := by
    have h := hroom.room
    rw [List.map_map, List.length_map, two_mul, LeavesRoom.placeUnit_add,
      LeavesRoom.placeUnit_add, ← pow_two] at h
    have htens : placeUnit 32 = 10 ^ 32 := by norm_num [placeUnit]
    rwa [htens] at h
  have hcarried : ∀ s ∈ shares, inContext |s.2| = |s.2| := fun s hs =>
    hroom.carried (List.mem_map_of_mem hs)
  have hstep : ∀ s ∈ shares, placeUnit place ≤ |s.2| := by
    intro s hs
    have h := (onGrid_size (hroom.onPlace _ (List.mem_map_of_mem hs))).le_of_lt_add hunit
      (onGrid_zero _) (x := |s.2|) (y := 0)
    by_contra hshort
    exact absurd (h (by linarith)) (not_le.mpr (hsided.held s hs).2)
  have hmore : |closing| + placeUnit place ≤ (shares.map (|·.2|)).sum := by
    by_contra hshort
    refine absurd (hgrid.le_of_lt_add hunit (onGrid_size hroom.closing) ?_) (not_le.mpr hless)
    linarith
  obtain ⟨first, last, rfl⟩ : ∃ first last, shares = first ++ [last] :=
    ⟨_, _, (List.dropLast_append_getLast hsome).symm⟩
  have hfirst : ∀ s ∈ first, s ∈ first ++ [last] := fun s hs => List.mem_append_left _ hs
  have hlast : last ∈ first ++ [last] := by simp
  rw [proportionalParts, hexact]
  simp only [List.dropLast_concat, List.getLast?_concat, Option.toList_some, List.map_map,
    List.map_cons, List.map_nil]
  refine List.rel_append ?_ (List.Forall₂.cons ⟨rfl, ?_⟩ List.Forall₂.nil)
  · rw [List.forall₂_map_left_iff, List.forall₂_same]
    intro s hs
    refine ⟨rfl, ?_⟩
    rw [hpart s (hfirst s hs)]
    exact hsided.withinShare (hfirst s hs) (hwithin s (hfirst s hs)).1 (hwithin s (hfirst s hs)).2
  · generalize hsum : ((first ++ [last]).map (|·.2|)).sum = whole at *
    obtain ⟨sum, hpieces⟩ : ∃ sum, sum = contextSum ((first.map (|·.2|)).map fun w =>
      inContext (|closing| * w / whole)) := ⟨_, rfl⟩
    have hparts : contextSum (first.map (Prod.snd ∘ fun s =>
        (s.1, divide (multiply closing s.2) (totalHeld (first ++ [last]))))) = sign * sum := by
      rw [hpieces, ← contextSum_signed hsided.unit, List.map_map, List.map_map]
      exact congrArg contextSum (List.map_congr_left fun s hs => hpart s (hfirst s hs))
    have hrest : subtract closing (sign * sum) = sign * subtract |closing| sum := by
      nth_rewrite 1 [hsided.closes.1]
      rw [subtract, ← mul_sub]
      exact inContext_signed hsided.unit _
    have hothers : ∀ w ∈ first.map (|·.2|), 0 ≤ w := by
      intro w hw
      obtain ⟨s, -, rfl⟩ := List.mem_map.mp hw
      exact abs_nonneg _
    have hwhole : (first.map (|·.2|)).sum + |last.2| = whole := by
      rw [← hsum, List.map_append, List.sum_append, List.map_singleton, List.sum_singleton]
    have hfew : (((first.map (|·.2|)).length : Decimal) + 5) * whole ^ 2 <
        placeUnit place ^ 2 * 10 ^ 32 := by
      rw [List.length_append, List.length_singleton] at hroom'
      rw [List.length_map]
      push_cast at hroom'
      linarith
    have hremains : 0 ≤ subtract |closing| sum ∧ subtract |closing| sum ≤ |last.2| :=
      remainder_within hothers (hstep last hlast) hunit hsided.closes.2 hwhole hmore hfew
        (hcarried last hlast) hpieces
    rw [hparts, hrest]
    exact hsided.withinShare hlast hremains.1 hremains.2

/-! ## Parts of a position -/

theorem roundDown_eq_iff : roundDown x = x ↔ OnGrid 1 x := by
  refine ⟨fun h => ?_, roundDown_whole⟩
  rw [← h, roundDown]
  split_ifs
  exacts [⟨_, (mul_one _).symm⟩, ⟨_, (mul_one _).symm⟩]

theorem strategyParts_ok {parts : List (String × Decimal)} (hsome : shares ≠ [])
    (h : strategyParts shares closing = .ok parts) :
    closing = contextSum (shares.map Prod.snd) ∧ parts = shares ∨
    closing ≠ contextSum (shares.map Prod.snd) ∧ (∀ s ∈ shares, 0 < s.2 ↔ 0 < closing) ∧
      ((∀ s ∈ shares, OnGrid 1 s.2) ∧ parts = wholeParts shares closing ∨
        ¬ (∀ s ∈ shares, OnGrid 1 s.2) ∧
          parts = proportionalParts shares closing (contextSum (shares.map Prod.snd))) := by
  unfold strategyParts at h
  have h := (if_neg hsome).symm.trans h
  by_cases hall : closing = contextSum (shares.map Prod.snd)
  · exact Or.inl ⟨hall, (pure_ok.mp ((if_pos hall).symm.trans h)).symm⟩
  obtain ⟨_, hsides, h⟩ := bind_ok.mp ((if_neg hall).symm.trans h)
  refine Or.inr ⟨hall, fun s hs => decide_eq_decide.mp (require_ok.mp hsides s hs), ?_⟩
  simp only [roundDown_eq_iff] at h
  by_cases hwhole : ∀ s ∈ shares, OnGrid 1 s.2
  · exact Or.inl ⟨hwhole, (pure_ok.mp ((if_pos hwhole).symm.trans h)).symm⟩
  · exact Or.inr ⟨hwhole, (pure_ok.mp ((if_neg hwhole).symm.trans h)).symm⟩

theorem oneSided_of_closes (hcloses : ClosesPart shares closing)
    (hsides : ∀ s ∈ shares, 0 < s.2 ↔ 0 < closing) (hpart : closing ≠ totalHeld shares) :
    OneSided (if 0 < closing then 1 else -1) shares closing ∧
      |closing| < (shares.map (|·.2|)).sum := by
  have hne : closing ≠ 0 := by
    rintro rfl
    exact absurd hcloses.side (by simp)
  have hsigned : OneSided (if 0 < closing then 1 else -1) shares closing := by
    by_cases hpos : 0 < closing
    · rw [if_pos hpos]
      refine ⟨Or.inl rfl, fun s hs => ?_, ?_⟩
      · have hs0 := (hsides s hs).mpr hpos
        exact ⟨by rw [abs_of_pos hs0, one_mul], abs_pos.mpr hs0.ne'⟩
      · exact ⟨by rw [abs_of_pos hpos, one_mul], abs_pos.mpr hne⟩
    · rw [if_neg hpos]
      refine ⟨Or.inr rfl, fun s hs => ?_, ?_⟩
      · have hs0 := not_lt.mp fun h => hpos ((hsides s hs).mp h)
        exact ⟨by rw [abs_of_nonpos hs0]; ring, abs_pos.mpr (hcloses.held s hs)⟩
      · exact ⟨by rw [abs_of_nonpos (not_lt.mp hpos)]; ring, abs_pos.mpr hne⟩
  refine ⟨hsigned, ?_⟩
  have htotal := totalHeld_signed fun s hs => (hsigned.held s hs).1
  have hwhole : 0 ≤ (shares.map (|·.2|)).sum := by
    refine List.sum_nonneg fun x hx => ?_
    obtain ⟨s, -, rfl⟩ := List.mem_map.mp hx
    exact abs_nonneg _
  have hle := hcloses.within
  rw [htotal, abs_mul, abs_of_nonneg hwhole] at hle
  have hunit : |(if 0 < closing then 1 else -1 : Decimal)| = 1 := by
    split_ifs <;> simp
  rw [hunit, one_mul] at hle
  refine lt_of_le_of_ne hle fun hsame => hpart ?_
  rw [htotal, ← hsame]
  exact hsigned.closes.1

/-- What a quantity is divided in full by: it is the whole total, or whole as the shares are,
    or what the others' proportions leave of it is exact. -/
def DividesExactly (shares : List (String × Decimal)) (closing : Decimal) : Prop :=
  closing = totalHeld shares ∨ (∀ s ∈ shares, OnGrid 1 s.2) ∧ OnGrid 1 closing ∨
    (¬ ∀ s ∈ shares, OnGrid 1 s.2) ∧ RemainderKept shares closing

end

/-- Three units closed of five that three strategies hold. -/
def fiveUnits : List (String × Decimal) := [("A", 2), ("B", 2), ("C", 1)]

end AlphaLab
