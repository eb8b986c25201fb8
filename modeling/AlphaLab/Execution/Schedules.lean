/-
  What a schedule spends (`execution/algorithms.py`: `plan_schedule`).

  * **A schedule** (`schedule_spends_parent`) spends its parent: its quantities are whole
    increments and sum up to the parent, its targets never fall and end there, and each
    quantity is within an increment of the slice's ideal.
-/
import AlphaLab.Execution.Plan

namespace AlphaLab

open Fallible Rounding

variable {weights : List Decimal}

theorem mul_foldl_add_le_sum (hw : ∀ w ∈ weights, 0 ≤ w) {acc : Decimal} (hacc : 0 ≤ acc) :
    (1 - relativeError) ^ weights.length * weights.foldl add acc ≤ acc + weights.sum := by
  obtain ⟨herr, herr1⟩ := relativeError_bounds
  induction weights generalizing acc with
  | nil => simp
  | cons w weights ih =>
    have hw0 := hw w (by simp)
    have hrest := fun v hv => hw v (List.mem_cons_of_mem _ hv)
    have hsum : 0 ≤ weights.sum := List.sum_nonneg hrest
    have hadd := inContext_le_mul (add_nonneg hacc hw0)
    have hstep := ih hrest (inContext_nonneg (add_nonneg hacc hw0))
    rw [List.foldl_cons, List.sum_cons, List.length_cons, pow_succ, mul_right_comm]
    calc (1 - relativeError) ^ weights.length * weights.foldl add (add acc w) *
          (1 - relativeError)
        ≤ (inContext (acc + w) + weights.sum) * (1 - relativeError) :=
          mul_le_mul_of_nonneg_right hstep (by linarith)
      _ ≤ acc + (w + weights.sum) := by
          have hrounded := mul_le_mul_of_nonneg_right hadd (by linarith : 0 ≤ 1 - relativeError)
          nlinarith [mul_nonneg (sq_nonneg relativeError) (add_nonneg hacc hw0),
            mul_nonneg hsum herr.le]

/-- **Floors of shares that are rounded leave no more than a unit a share.** -/
theorem le_floors_sum {total : ℤ} (htotal : 0 ≤ total) (hw : ∀ w ∈ weights, 0 ≤ w)
    (hpos : 0 < weights.sum) (hfew : ((weights.length : Decimal) + 3) * (total + 1) < 2 * 10 ^ 33) :
    total ≤ (weights.map fun w => ⌊divide (multiply total w) (contextSum weights)⌋).sum +
      weights.length := by
  obtain ⟨herr, herr1⟩ := relativeError_bounds
  have htotal' : (0 : Decimal) ≤ total := by exact_mod_cast htotal
  have hupper := mul_foldl_add_le_sum hw le_rfl
  have hlower := mul_sum_le_foldl_add hw le_rfl
  rw [zero_add] at hupper hlower
  change _ * contextSum weights ≤ _ at hupper
  change _ ≤ contextSum weights at hlower
  generalize contextSum weights = whole at hupper hlower ⊢
  have hkeeps : 0 < (1 - relativeError) ^ weights.length := pow_pos (by linarith) _
  have hwhole : 0 < whole := (mul_pos hkeeps hpos).trans_le hlower
  -- each floor is above its share of the total, rounded twice, less one
  have hfloor : ∀ w ∈ weights, (1 - relativeError) ^ 2 * total / whole * w ≤
      (⌊divide (multiply total w) whole⌋ : Decimal) + 1 := by
    intro w hmem
    have hprod : 0 ≤ total * w := mul_nonneg htotal' (hw w hmem)
    have hmul := mul_le_inContext hprod
    have hdiv := mul_le_inContext (div_nonneg (inContext_nonneg hprod) hwhole.le)
    have hideal : (1 - relativeError) ^ 2 * total / whole * w ≤
        divide (multiply total w) whole := by
      calc (1 - relativeError) ^ 2 * total / whole * w
          = (1 - relativeError) * ((1 - relativeError) * (total * w) / whole) := by ring
        _ ≤ (1 - relativeError) * (inContext (total * w) / whole) := by
            refine mul_le_mul_of_nonneg_left ?_ (by linarith)
            exact div_le_div_of_nonneg_right hmul hwhole.le
        _ ≤ divide (multiply total w) whole := hdiv
    linarith [Int.lt_floor_add_one (divide (multiply total w) whole)]
  have hsum : (1 - relativeError) ^ 2 * total / whole * weights.sum ≤
      ((weights.map fun w => ⌊divide (multiply total w) whole⌋).sum : Decimal) +
        weights.length := by
    have hscaled := List.sum_le_sum hfloor
    rw [List.sum_map_add, List.sum_map_mul_left, List.map_id', List.map_const', List.sum_replicate,
      nsmul_one] at hscaled
    rwa [Int.cast_list_sum, List.map_map]
  -- the sum of the weights is not much less than the whole
  have hratio : (1 - relativeError) ^ weights.length ≤ weights.sum / whole := by
    rwa [le_div_iff₀ hwhole]
  have hkept : 1 - ((weights.length : Decimal) + 2) * relativeError ≤
      (1 - relativeError) ^ (weights.length + 2) := by
    have hbernoulli := one_add_mul_le_pow (a := -relativeError) (by linarith) (weights.length + 2)
    rw [← sub_eq_add_neg] at hbernoulli
    push_cast at hbernoulli
    linarith
  have hmost : (total : Decimal) - 1 < (1 - relativeError) ^ 2 * total / whole * weights.sum := by
    have hsmall : ((weights.length : Decimal) + 3) * (total + 1) * relativeError < 1 := by
      rw [relativeError]
      linarith
    calc (total : Decimal) - 1
        < total * (1 - ((weights.length : Decimal) + 2) * relativeError) := by nlinarith
      _ ≤ total * (1 - relativeError) ^ (weights.length + 2) :=
          mul_le_mul_of_nonneg_left hkept htotal'
      _ = (1 - relativeError) ^ 2 * total * (1 - relativeError) ^ weights.length := by ring
      _ ≤ (1 - relativeError) ^ 2 * total * (weights.sum / whole) := by
          refine mul_le_mul_of_nonneg_left hratio (mul_nonneg (sq_nonneg _) htotal')
      _ = (1 - relativeError) ^ 2 * total / whole * weights.sum := by ring
  have hlt : (total : Decimal) - 1 < ((weights.map fun w =>
      ⌊divide (multiply total w) whole⌋).sum : Decimal) + weights.length := by linarith
  have hint : total - 1 < (weights.map fun w => ⌊divide (multiply total w) whole⌋).sum +
      weights.length := by exact_mod_cast hlt
  omega

/-- The floors of the ideals, one more at the places ranked first. -/
theorem apportionUnits_eq (total : ℤ) (weights : List Decimal) :
    ∃ ranked, ranked.Perm (List.range weights.length) ∧ apportionUnits total weights =
      ((weights.map fun w => ⌊divide (multiply total w) (contextSum weights)⌋).zipIdx.map
        fun share => if share.2 ∈ sliceTo (total - (weights.map fun w =>
          ⌊divide (multiply total w) (contextSum weights)⌋).sum) ranked then share.1 + 1
        else share.1) := by
  let remainders := weights.map ((fun ideal => subtract ideal ⌊ideal⌋) ∘ fun w =>
    divide (multiply (total : Decimal) w) (contextSum weights))
  refine ⟨(List.range weights.length).insertionSort fun i j =>
    remainders.getD j 0 < remainders.getD i 0 ∨
      remainders.getD j 0 = remainders.getD i 0 ∧ i ≤ j, List.perm_insertionSort _ _, ?_⟩
  simp only [apportionUnits, List.map_map]
  rfl

theorem sum_apportionUnits {total : ℤ} (htotal : 0 ≤ total) (hw : ∀ w ∈ weights, 0 ≤ w)
    (hpos : 0 < weights.sum) (hfew : ((weights.length : Decimal) + 3) * (total + 1) < 2 * 10 ^ 33) :
    (apportionUnits total weights).sum = total := by
  have hmost := floors_sum_le htotal hw hfew
  have hleast := le_floors_sum htotal hw hpos hfew
  obtain ⟨ranked, hperm, hunits⟩ := apportionUnits_eq total weights
  rw [hunits]
  rw [sum_topped, List.length_map]
  generalize (weights.map fun w => ⌊divide (multiply total w) (contextSum weights)⌋).sum = floors
    at hmost hleast ⊢
  -- every place topped is a place of the list, once
  have htaken : sliceTo (total - floors) ranked = ranked.take (total - floors).toNat :=
    if_pos (by omega)
  have htopped : ((List.range' 0 weights.length).filter (· ∈ sliceTo (total - floors) ranked)).Perm
      (sliceTo (total - floors) ranked) := by
    have hnodup : (sliceTo (total - floors) ranked).Nodup := by
      rw [htaken]
      exact (hperm.nodup_iff.mpr List.nodup_range).sublist (List.take_sublist _ _)
    refine (List.perm_ext_iff_of_nodup (List.Nodup.filter _ List.nodup_range') hnodup).mpr ?_
    intro i
    simp only [List.mem_filter, decide_eq_true_eq, and_iff_right_iff_imp]
    intro hi
    rw [htaken] at hi
    rw [← List.range_eq_range']
    exact hperm.mem_iff.mp (List.mem_of_mem_take hi)
  have hlength : (sliceTo (total - floors) ranked).length = (total - floors).toNat := by
    rw [htaken, List.length_take, hperm.length_eq, List.length_range]
    omega
  rw [htopped.length_eq, hlength]
  omega

theorem apportionUnits_near (total : ℤ) (weights : List Decimal) :
    List.Forall₂ (fun unit ideal => unit = ⌊ideal⌋ ∨ unit = ⌊ideal⌋ + 1)
      (apportionUnits total weights)
      (weights.map fun w => divide (multiply total w) (contextSum weights)) := by
  obtain ⟨ranked, -, hunits⟩ := apportionUnits_eq total weights
  have hmapped : (weights.map fun w => ⌊divide (multiply total w) (contextSum weights)⌋) =
      (weights.map fun w => divide (multiply total w) (contextSum weights)).map fun ideal =>
        ⌊ideal⌋ := by
    rw [List.map_map]
    rfl
  rw [hunits]
  generalize sliceTo _ _ = topped
  rw [hmapped]
  generalize (weights.map fun w => divide (multiply total w) (contextSum weights)) = ideals
  have hzip : ∀ start, List.Forall₂ (fun unit ideal => unit = ⌊ideal⌋ ∨ unit = ⌊ideal⌋ + 1)
      (((ideals.map fun ideal => ⌊ideal⌋).zipIdx start).map fun share =>
        if share.2 ∈ topped then share.1 + 1 else share.1) ideals := by
    induction ideals with
    | nil => exact fun _ => List.Forall₂.nil
    | cons ideal ideals ih =>
      intro start
      rw [List.map_cons, List.zipIdx_cons, List.map_cons]
      refine List.Forall₂.cons ?_ (ih (start + 1))
      dsimp only
      split_ifs
      exacts [Or.inr rfl, Or.inl rfl]
  exact hzip 0

theorem one_mem_sliceClocks (hsome : weights ≠ []) (hpos : 0 < contextSum weights) :
    1 ∈ sliceClocks weights := by
  have hlast : weights ∈ weights.inits.drop 1 := by
    cases weights with
    | nil => exact absurd rfl hsome
    | cons w weights =>
      rw [List.inits_cons, List.drop_succ_cons, List.drop_zero]
      exact List.mem_map_of_mem ((List.mem_inits _ _).mpr (List.prefix_refl _))
  refine List.mem_map.mpr ⟨contextSum weights, List.mem_map_of_mem hlast, ?_⟩
  rw [divide, div_self hpos.ne']
  exact exact_one

theorem eq_of_zip_self {a : Decimal} : ∀ {l : List Decimal},
    (∀ p ∈ l.zip (a :: l), p.1 = p.2) → ∀ x ∈ l, x = a
  | [], _, x, hx => by cases hx
  | y :: l, h, x, hx => by
    rw [List.zip_cons_cons] at h
    have hy : y = a := h (y, a) (by simp)
    subst hy
    rcases List.mem_cons.mp hx with rfl | hx
    · rfl
    · exact eq_of_zip_self (fun p hp => h p (List.mem_cons_of_mem _ hp)) x hx

/-- **Something falls due** over a clock's slices. -/
theorem sum_dueShares_pos {support : AlgorithmSupport} (hexp : support.Exponential)
    {urgency : Urgency} (hkappa : Exact urgency.kappa) (hw : ∀ w ∈ weights, 0 ≤ w)
    (hsome : weights ≠ []) (hpos : 0 < contextSum weights) :
    0 < (dueShares support urgency weights).sum := by
  have hshares := dueShares_nonneg hexp hkappa hw
  refine lt_of_le_of_ne (List.sum_nonneg hshares) fun hzero => ?_
  -- nothing due in any slice: what is due stays at nothing, and ends at one
  have hnone : ∀ p ∈ ((sliceClocks weights).map (urgency.fraction support)).zip
      (0 :: (sliceClocks weights).map (urgency.fraction support)), p.1 = p.2 := by
    intro p hp
    have hmem : subtract p.1 p.2 ∈ dueShares support urgency weights :=
      List.mem_map.mpr ⟨p, hp, rfl⟩
    have hle := List.single_le_sum hshares _ hmem
    rw [← hzero] at hle
    exact sub_eq_zero.mp (inContext_eq_zero.mp (le_antisymm hle (hshares _ hmem)))
  have hone : (1 : Decimal) ∈ (sliceClocks weights).map (urgency.fraction support) := by
    refine List.mem_map.mpr ⟨1, one_mem_sliceClocks hsome hpos, ?_⟩
    rw [Urgency.fraction, if_neg (by norm_num), if_pos le_rfl]
  exact one_ne_zero (eq_of_zip_self hnone 1 hone)

def unitSums (due : ℤ) : List ℤ → List ℤ
  | [] => []
  | unit :: units => (due + unit) :: unitSums (due + unit) units

variable {units : List ℤ}

theorem unitSums_isChain (h : ∀ unit ∈ units, 0 ≤ unit) (due : ℤ) :
    List.IsChain (· ≤ ·) (due :: unitSums due units) := by
  induction units generalizing due with
  | nil => exact List.isChain_singleton _
  | cons unit units ih =>
    rw [unitSums, List.isChain_cons_cons]
    refine ⟨?_, ih (fun u hu => h u (List.mem_cons_of_mem _ hu)) _⟩
    linarith [h unit (by simp)]

theorem getLast_unitSums (hsome : units ≠ []) (due : ℤ) :
    (unitSums due units).getLast? = some (due + units.sum) := by
  induction units generalizing due with
  | nil => exact absurd rfl hsome
  | cons unit units ih =>
    cases units with
    | nil => simp [unitSums]
    | cons unit' units =>
      have hnext := ih (by simp) (due + unit)
      rw [unitSums, List.getLast?_cons, hnext, Option.getD_some, List.sum_cons (a := unit),
        add_assoc]

theorem mem_unitSums (h : ∀ unit ∈ units, 0 ≤ unit) {due sum : ℤ} (hsum : sum ∈ unitSums due units) :
    due ≤ sum ∧ sum ≤ due + units.sum := by
  induction units generalizing due with
  | nil => cases hsum
  | cons unit units ih =>
    have hunit := h unit List.mem_cons_self
    have hrest := fun u hu => h u (List.mem_cons_of_mem _ hu)
    have hlater := List.sum_nonneg hrest
    rw [List.sum_cons]
    rcases List.mem_cons.mp hsum with rfl | hsum
    · omega
    · have hnext := ih hrest hsum
      omega

/-- What slices of whole units hold: their quantities and targets are not rounded. -/
theorem runningSlices_exact {k : ℕ} {increment quantity : Decimal} (whole : Decimal)
    (hquantity : Fits k quantity) (hincrement : Whole k increment) (hpos : 0 < increment)
    {items : List ((Instant × Instant) × Decimal × ℤ)} (hitems : ∀ item ∈ items, 0 ≤ item.2.2)
    (index : ℕ) {due : ℤ} (hdue : 0 ≤ due)
    (hsum : (due + (items.map (·.2.2)).sum : ℤ) * increment ≤ quantity) :
    (runningSlices increment whole index (due * increment) items).map (·.quantity) =
        (items.map (·.2.2)).map (fun unit : ℤ => (unit : Decimal) * increment) ∧
      (runningSlices increment whole index (due * increment) items).map (·.target) =
        (unitSums due (items.map (·.2.2))).map fun unit : ℤ => (unit : Decimal) * increment := by
  induction items generalizing index due with
  | nil => exact ⟨rfl, rfl⟩
  | cons item items ih =>
    obtain ⟨⟨low, high⟩, weight, share⟩ := item
    have hshare : 0 ≤ share := hitems _ List.mem_cons_self
    have hrest := fun i hi => hitems i (List.mem_cons_of_mem _ hi)
    have hlater : 0 ≤ (items.map (·.2.2)).sum := by
      refine List.sum_nonneg ?_
      intro x hx
      obtain ⟨i, hi, rfl⟩ := List.mem_map.mp hx
      exact hrest i hi
    rw [List.map_cons, List.sum_cons] at hsum
    obtain ⟨hslicequantity, htarget⟩ := slice_exact hquantity hincrement hpos hdue hshare hlater hsum
    obtain ⟨hquantities, htargets⟩ := ih hrest (index + 1) (by omega : 0 ≤ due + share) (by
      refine le_of_eq_of_le ?_ hsum
      congr 2
      ring)
    rw [runningSlices]
    rw [hslicequantity] at htarget ⊢
    simp only [htarget, List.map_cons, unitSums]
    exact ⟨congrArg _ hquantities, congrArg _ htargets⟩

/-- The ideal units of a schedule's slices, as they are computed: the parent's, in the
    proportion of what falls due. -/
def idealUnits (support : AlgorithmSupport) (quantity : Decimal) (algorithm : ExecutionAlgorithm)
    (terms : AlgorithmTerms) : List Decimal :=
  match clockSlices algorithm terms with
  | .ok (some (_, weights, urgency, _, _)) =>
    (dueShares support urgency weights).map fun share =>
      divide (multiply (quantity / terms.quantityIncrement) share)
        (contextSum (dueShares support urgency weights))
  | .ok none | .error _ => []

section
variable {support : AlgorithmSupport} (hexp : support.Exponential) {k : ℕ} {quantity : Decimal}
  {algorithm : ExecutionAlgorithm} {terms : AlgorithmTerms} (hquantity : Fits k quantity)
  (hpositive : 0 ≤ quantity) (hincrement : Whole k terms.quantityIncrement)
  (hkappa : algorithm.ExactUrgency)
  (hfew : ((algorithm.plannedSlices : Decimal) + 3) *
    (quantity / terms.quantityIncrement + 1) < 2 * 10 ^ 33)
  {schedule : ExecutionSchedule}
  (h : planSchedule support quantity algorithm terms = .ok (some schedule))
include hexp hquantity hpositive hincrement hkappa hfew h

/-- **A schedule is units**: all there are, each near its ideal, of which neither the quantities
    nor the targets are rounded. -/
theorem planSchedule_units : ∃ units : List ℤ, units ≠ [] ∧ (∀ unit ∈ units, 0 ≤ unit) ∧
    quantity = units.sum * terms.quantityIncrement ∧
    List.Forall₂ (fun unit ideal => unit = ⌊ideal⌋ ∨ unit = ⌊ideal⌋ + 1) units
      (idealUnits support quantity algorithm terms) ∧
    schedule.slices.map (·.quantity) =
      units.map (fun unit : ℤ => (unit : Decimal) * terms.quantityIncrement) ∧
    schedule.slices.map (·.target) =
      (unitSums 0 units).map fun unit : ℤ => (unit : Decimal) * terms.quantityIncrement := by
  obtain ⟨total, bounds, weights, urgency, basis, note, htotal, hsome, hclock, hslices⟩ :=
    planSchedule_some h
  have hunits := requireMultiple_eq htotal hquantity hpositive hincrement terms.positive
  have hclocked := clockSlices_clocked hclock
  have hnonneg := dueShares_nonneg hexp (hclocked.urgent hkappa) hclocked.nonneg
  have hdue := sum_dueShares_pos hexp (hclocked.urgent hkappa) hclocked.nonneg hclocked.some
    hclocked.positive
  have hratio : quantity / terms.quantityIncrement = total := by
    rw [hunits, mul_div_cancel_right₀ _ terms.positive.ne']
  have hfew' : (((dueShares support urgency weights).length : Decimal) + 3) * (total + 1) <
      2 * 10 ^ 33 := by
    rw [length_dueShares]
    rw [hratio] at hfew
    refine lt_of_le_of_lt ?_ hfew
    have hcount : (weights.length : Decimal) ≤ algorithm.plannedSlices := by
      exact_mod_cast hclocked.planned
    gcongr
  have hshares := apportionUnits_nonneg hsome.le hnonneg
  have hsum := sum_apportionUnits hsome.le hnonneg hdue hfew'
  have hnear := apportionUnits_near total (dueShares support urgency weights)
  have hideal : idealUnits support quantity algorithm terms =
      (dueShares support urgency weights).map fun share =>
        divide (multiply (total : Decimal) share)
          (contextSum (dueShares support urgency weights)) := by
    simp only [idealUnits, hclock, hratio]
  have hlength : (apportionUnits total (dueShares support urgency weights)).length =
      weights.length := by
    rw [hnear.length_eq, List.length_map, length_dueShares]
  rw [hideal]
  generalize apportionUnits total (dueShares support urgency weights) = units at *
  -- every slice takes its share of the units
  have hitems : (bounds.zip (weights.zip units)).map (·.2.2) = units := by
    have hzip : (bounds.zip (weights.zip units)).map Prod.snd = weights.zip units :=
      List.map_snd_zip (by rw [List.length_zip, hlength, min_self, hclocked.bounded])
    calc (bounds.zip (weights.zip units)).map (·.2.2)
        = ((bounds.zip (weights.zip units)).map Prod.snd).map Prod.snd := by
          rw [List.map_map]
          rfl
      _ = units := by rw [hzip, List.map_snd_zip hlength.le]
  obtain ⟨hquantities, htargets⟩ := runningSlices_exact (contextSum weights) hquantity hincrement
    terms.positive (by
      intro item hitem
      refine hshares _ ?_
      rw [← hitems]
      exact List.mem_map_of_mem hitem) 1 le_rfl (by rw [hitems, zero_add, hsum, hunits])
  rw [Int.cast_zero, zero_mul, ← hslices, hitems] at hquantities htargets
  refine ⟨units, ?_, hshares, by rw [hsum, hunits], hnear, hquantities, htargets⟩
  rw [← List.length_pos_iff, hlength, List.length_pos_iff]
  exact hclocked.some

/-- **The targets of a schedule are whole increments, between nothing and the parent.** -/
theorem planSchedule_targets :
    ∀ slice ∈ schedule.slices, WholeTarget terms.quantityIncrement quantity slice.target := by
  obtain ⟨units, -, hshares, hall, -, -, htargets⟩ :=
    planSchedule_units hexp hquantity hpositive hincrement hkappa hfew h
  intro slice hslice
  have hmem := List.mem_map_of_mem (f := (·.target)) hslice
  rw [htargets] at hmem
  obtain ⟨sum, hsum, htarget⟩ := List.mem_map.mp hmem
  obtain ⟨hlow, hhigh⟩ := mem_unitSums hshares hsum
  rw [zero_add] at hhigh
  rw [← htarget, hall]
  exact ⟨⟨sum, rfl⟩, mul_nonneg (by exact_mod_cast hlow) terms.positive.le,
    mul_le_mul_of_nonneg_right (by exact_mod_cast hhigh) terms.positive.le⟩

end

/-- **A schedule spends its parent**: quantities of whole increments that are not negative
    and sum up to the parent, targets that never fall and end at the parent, and each
    quantity the whole increments of the slice's ideal or one more. -/
theorem schedule_spends_parent {support : AlgorithmSupport} (hexp : support.Exponential)
    {k : ℕ} {quantity : Decimal} {algorithm : ExecutionAlgorithm} {terms : AlgorithmTerms}
    (hquantity : Fits k quantity) (hpositive : 0 ≤ quantity)
    (hincrement : Whole k terms.quantityIncrement) (hkappa : algorithm.ExactUrgency)
    (hfew : ((algorithm.plannedSlices : Decimal) + 3) *
      (quantity / terms.quantityIncrement + 1) < 2 * 10 ^ 33)
    {schedule : ExecutionSchedule}
    (h : planSchedule support quantity algorithm terms = .ok (some schedule)) :
    (∀ slice ∈ schedule.slices, OnGrid terms.quantityIncrement slice.quantity ∧
        0 ≤ slice.quantity) ∧
      (schedule.slices.map (·.quantity)).sum = quantity ∧
      List.IsChain (· ≤ ·) (0 :: schedule.slices.map (·.target)) ∧
      (schedule.slices.map (·.target)).getLast? = some quantity ∧
      List.Forall₂ (fun (slice : ScheduledSlice) ideal =>
          slice.quantity = ⌊ideal⌋ * terms.quantityIncrement ∨
            slice.quantity = (⌊ideal⌋ + 1) * terms.quantityIncrement)
        schedule.slices (idealUnits support quantity algorithm terms) := by
  have hpos := terms.positive
  obtain ⟨units, hunitsne, hshares, hall, hnear, hquantities, htargets⟩ :=
    planSchedule_units hexp hquantity hpositive hincrement hkappa hfew h
  refine ⟨?_, ?_, ?_, ?_, ?_⟩
  · intro slice hslice
    have hmem : slice.quantity ∈ units.map fun unit : ℤ => (unit : Decimal) *
        terms.quantityIncrement := by
      rw [← hquantities]
      exact List.mem_map_of_mem hslice
    obtain ⟨unit, hunit, hq⟩ := List.mem_map.mp hmem
    refine ⟨⟨unit, hq.symm⟩, ?_⟩
    rw [← hq]
    exact mul_nonneg (by exact_mod_cast hshares unit hunit) hpos.le
  · rw [hquantities, List.sum_map_mul_right, hall, Int.cast_list_sum]
  · rw [htargets]
    have hchain := List.isChain_map_of_isChain (fun unit : ℤ => (unit : Decimal) *
      terms.quantityIncrement) (fun a b hab => mul_le_mul_of_nonneg_right
        (by exact_mod_cast hab) hpos.le) (unitSums_isChain hshares 0)
    rwa [List.map_cons, Int.cast_zero, zero_mul] at hchain
  · rw [htargets, List.getLast?_map, getLast_unitSums hunitsne, zero_add, hall]
    rfl
  · have hmapped : List.Forall₂ (fun q ideal => q = ⌊ideal⌋ * terms.quantityIncrement ∨
        q = (⌊ideal⌋ + 1) * terms.quantityIncrement) (schedule.slices.map (·.quantity))
        (idealUnits support quantity algorithm terms) := by
      rw [hquantities, List.forall₂_map_left_iff]
      refine hnear.imp fun unit ideal hunit => ?_
      rcases hunit with rfl | rfl
      · exact Or.inl rfl
      · exact Or.inr (by push_cast; rfl)
    rwa [List.forall₂_map_left_iff] at hmapped

/-! ## Early slices, a tiny urgency, many digits -/

namespace AlgorithmState

def tenInstants : AlgorithmTerms where
  start := 0
  «end» := 10
  quantityIncrement := 1
  orderType := .market
  limitPrice := none
  ordered := by norm_num
  positive := by norm_num
  priced := Or.inl ⟨rfl, rfl⟩

def plainSupport : AlgorithmSupport where
  exp x := 1 + max 0 x
  runId _ _ _ := "RUN"

theorem plainSupport_exponential : plainSupport.Exponential where
  zero := by simp [plainSupport]
  mono := by
    intro x y _ h
    simp only [plainSupport]
    gcongr

end AlgorithmState

def steadySlices (slices : ℕ) (h : 1 ≤ slices) : ExecutionAlgorithm :=
  .twap slices h ⟨0, by norm_num⟩

def roundedSupport : AlgorithmSupport where
  exp x := inContext (1 + max 0 x)
  runId _ _ _ := "RUN"

theorem ten_units_spent : ∃ schedule,
    planSchedule AlgorithmState.plainSupport 10 (steadySlices 3 (by decide))
      AlgorithmState.tenInstants = .ok (some schedule) ∧
    (schedule.slices.map (·.quantity)).sum = 10 := by
  obtain ⟨planned, hplanned, hsome⟩ := exists_ok_of
    (x := planSchedule AlgorithmState.plainSupport 10 (steadySlices 3 (by decide))
      AlgorithmState.tenInstants) (fun planned => planned.isSome = true) (by decide +kernel)
  obtain ⟨schedule, rfl⟩ := Option.isSome_iff_exists.mp hsome
  refine ⟨schedule, hplanned, ?_⟩
  have hkappa : (steadySlices 3 (by decide)).ExactUrgency := inContext_zero
  exact (schedule_spends_parent (k := 0) AlgorithmState.plainSupport_exponential
    ⟨⟨10, by norm_num [quantum]⟩, by norm_num [quantum]⟩ (by norm_num)
    ⟨1, by norm_num [quantum, AlgorithmState.tenInstants]⟩ hkappa
    (by norm_num [steadySlices, ExecutionAlgorithm.plannedSlices, AlgorithmState.tenInstants])
    hplanned).2.1

/-- **Four units over ten slices are due in the first four**, where the ideal is not yet two;
    an urgency of ten to the minus fortieth has no schedule over two slices; and a parent of
    34 nines is overspent. -/
theorem targets_run_ahead :
    (∃ planned, planSchedule AlgorithmState.plainSupport 4 (steadySlices 10 (by decide))
        AlgorithmState.tenInstants = .ok planned ∧
      ∃ schedule ∈ planned, ∃ slice ∈ schedule.slices,
        1 < slice.target - 4 * (slice.end / 10)) ∧
    (∃ kappa, 0 ≤ kappa ∧ ∃ h, planSchedule roundedSupport 10 (.twap 2 (by decide) ⟨kappa, h⟩)
      AlgorithmState.tenInstants = .error .undefined) ∧
    ∃ planned, planSchedule AlgorithmState.plainSupport (10 ^ 34 - 1)
        (steadySlices 2 (by decide)) AlgorithmState.tenInstants = .ok planned ∧
      ∃ schedule ∈ planned, (schedule.slices.map (·.quantity)).sum = 10 ^ 34 + 1 := by
  refine ⟨?_, ⟨1 / 10 ^ 40, by norm_num, by norm_num, refusal_eq_some.mp (by decide +kernel)⟩, ?_⟩
  · obtain ⟨planned, hplanned, hahead⟩ := exists_ok_of (x := planSchedule
      AlgorithmState.plainSupport 4 (steadySlices 10 (by decide)) AlgorithmState.tenInstants)
      (fun planned => (planned.any fun schedule => schedule.slices.any fun slice =>
        decide (1 < slice.target - 4 * (slice.end / 10))) = true) (by decide +kernel)
    obtain ⟨schedule, rfl, hslice⟩ := (Option.any_eq_true _ _).mp hahead
    obtain ⟨slice, hmem, hlt⟩ := List.any_eq_true.mp hslice
    exact ⟨_, hplanned, schedule, rfl, slice, hmem, of_decide_eq_true hlt⟩
  · obtain ⟨planned, hplanned, hover⟩ := exists_ok_of (x := planSchedule
      AlgorithmState.plainSupport (10 ^ 34 - 1) (steadySlices 2 (by decide))
      AlgorithmState.tenInstants) (fun planned => (planned.any fun schedule =>
        decide ((schedule.slices.map (·.quantity)).sum = 10 ^ 34 + 1)) = true) (by decide +kernel)
    obtain ⟨schedule, rfl, hsum⟩ := (Option.any_eq_true _ _).mp hover
    exact ⟨_, hplanned, schedule, rfl, of_decide_eq_true hsum⟩

end AlphaLab
