/-
  Whose units of an asset are, and what closing or delivering them leaves.

  * `sharesOf_eq_nil`, `partOf_sharesOf`: the shares of an asset are the positions
    in it.
-/
import AlphaLab.Allocation.Ledger

namespace AlphaLab

section
variable {s : AllocationState}

abbrev AllocationState.Recorded (s : AllocationState) : Prop := s.strategyPositions ≠ none

variable (strategyId assetId : String) (closed : List (String × Decimal))
  (delivered : Option (String × List (String × Decimal) × Decimal)) (quantity : Decimal)

theorem positionOf_settlePosition (hrecorded : s.Recorded) (i a : String) :
    (s.settlePosition strategyId assetId quantity).positionOf i a =
      if i = strategyId ∧ a = assetId then quantity else s.positionOf i a := by
  obtain ⟨positions, hp⟩ := Option.ne_none_iff_exists'.mp hrecorded
  unfold AllocationState.positionOf AllocationState.settlePosition
  rw [hp, Option.map_some, Option.getD_some, Option.getD_some, settleHeld, Dict.get?_set]
  by_cases hi : i = strategyId
  · subst hi
    rw [if_pos rfl, Option.elim_some]
    by_cases hq : quantity = 0
    · by_cases ha : a = assetId
      · simp [ha, hq]
      · cases positions.get? i <;> simp [ha, hq, Dict.get?_delete]
    · by_cases ha : a = assetId
      · simp [ha, hq]
      · cases positions.get? i <;> simp [ha, hq, Dict.get?_set]
  · simp [hi]

theorem settlePosition_recorded (h : s.Recorded) :
    (s.settlePosition strategyId assetId quantity).Recorded := by
  simpa [AllocationState.Recorded, AllocationState.settlePosition] using h

theorem moveCapital_positions (held quantity unitValue : Decimal) :
    (s.moveCapital strategyId assetId held quantity unitValue).strategyPositions =
      s.strategyPositions := by
  unfold AllocationState.moveCapital
  split <;> rfl

/-- A position moved without an order, whatever its capital does. -/
theorem positionOf_moved (quantity held moved value : Decimal) (h : s.Recorded) (i a : String) :
    (((s.settlePosition strategyId assetId quantity).moveCapital strategyId assetId held moved
        value).positionOf i a =
      if i = strategyId ∧ a = assetId then quantity else s.positionOf i a) ∧
    ((s.settlePosition strategyId assetId quantity).moveCapital strategyId assetId held moved
        value).Recorded := by
  rw [AllocationState.Recorded, moveCapital_positions]
  refine ⟨?_, settlePosition_recorded _ _ _ h⟩
  rw [← positionOf_settlePosition _ _ _ h, AllocationState.positionOf, moveCapital_positions]
  rfl

/-! ## Units closed and received -/

/-- **Units moved one strategy after another** move each by its own. -/
theorem positionOf_moves {f : AllocationState → String × Decimal → AllocationState}
    {assetId : String} {sign : Decimal}
    (hf : ∀ s e, s.Recorded → (f s e).Recorded ∧ ∀ i a, (f s e).positionOf i a =
      s.positionOf i a + if i = e.1 ∧ a = assetId then sign * e.2 else 0)
    (parts : List (String × Decimal)) (h : s.Recorded) (i a : String) :
    (parts.foldl f s).positionOf i a =
        s.positionOf i a + (if a = assetId then sign * partOf parts i else 0) ∧
      (parts.foldl f s).Recorded := by
  induction parts generalizing s with
  | nil => exact ⟨by simp [partOf], h⟩
  | cons part parts ih =>
    obtain ⟨hrecorded, hposition⟩ := hf s part h
    obtain ⟨hrest, hkept⟩ := ih hrecorded
    refine ⟨?_, hkept⟩
    rw [List.foldl_cons, hrest, hposition]
    by_cases ha : a = assetId
    · by_cases hi : i = part.1
      · simp [partOf, ha, hi, mul_add, add_assoc]
      · simp [partOf, ha, hi, Ne.symm hi]
    · simp [ha]

theorem positionOf_closeUnits (e : String × Decimal) (h : s.Recorded) :
    (s.closeUnits assetId e).Recorded ∧ ∀ i a, (s.closeUnits assetId e).positionOf i a =
      s.positionOf i a + if i = e.1 ∧ a = assetId then -1 * e.2 else 0 := by
  refine ⟨(positionOf_moved _ _ _ _ _ _ h "" "").2, fun i a => ?_⟩
  rw [AllocationState.closeUnits, (positionOf_moved _ _ _ _ _ _ h i a).1]
  split_ifs with hia
  · rw [hia.1, hia.2]
    ring
  · rw [add_zero]

theorem positionOf_receiveUnits (unitValue : Decimal) (e : String × Decimal) (h : s.Recorded) :
    (s.receiveUnits assetId unitValue e).Recorded ∧
      ∀ i a, (s.receiveUnits assetId unitValue e).positionOf i a =
        s.positionOf i a + if i = e.1 ∧ a = assetId then 1 * e.2 else 0 := by
  refine ⟨(positionOf_moved _ _ _ _ _ _ h "" "").2, fun i a => ?_⟩
  rw [AllocationState.receiveUnits, (positionOf_moved _ _ _ _ _ _ h i a).1]
  split_ifs with hia
  · rw [hia.1, hia.2, one_mul]
  · rw [add_zero]

/-- **Each strategy's position after an exercise, an assignment or a delivery.** -/
theorem positionOf_applyLifecycle (h : s.Recorded) (i a : String) :
    (s.applyLifecycle assetId closed delivered).positionOf i a = s.positionOf i a -
      (if a = assetId then partOf closed i else 0) +
      delivered.elim 0 fun d => if a = d.1 then partOf d.2.1 i else 0 := by
  rw [AllocationState.applyLifecycle, if_neg h]
  obtain ⟨hclosed, hkept⟩ := positionOf_moves (fun s e hs => positionOf_closeUnits assetId e hs)
    closed h i a
  cases delivered with
  | none =>
    simp only [Option.elim_none, add_zero]
    rw [hclosed]
    split_ifs <;> ring
  | some d =>
    obtain ⟨deliveredAsset, units, unitValue⟩ := d
    obtain ⟨hreceived, -⟩ := positionOf_moves
      (fun s e hs => positionOf_receiveUnits deliveredAsset unitValue e hs) units hkept i a
    simp only [Option.elim_some]
    rw [hreceived, hclosed]
    split_ifs <;> ring

theorem positionOf_unrecorded (h : ¬ s.Recorded) (i a : String) : s.positionOf i a = 0 := by
  rw [not_not] at h
  simp [AllocationState.positionOf, h]

theorem applyLifecycle_unrecorded (h : ¬ s.Recorded) :
    s.applyLifecycle assetId closed delivered = s := by
  rw [not_not] at h
  rw [AllocationState.applyLifecycle, if_pos h]

/-! ## Shares -/

theorem mem_sharesOf {assetId : String} {e : String × Decimal} :
    e ∈ s.sharesOf assetId ↔ s.positionOf e.1 assetId = e.2 ∧ e.2 ≠ 0 := by
  obtain ⟨i, quantity⟩ := e
  simp only [AllocationState.sharesOf, AllocationState.positionOf, List.mem_filterMap,
    Option.bind_eq_some_iff]
  constructor
  · rintro ⟨⟨j, held⟩, hmem, q, hq, hif⟩
    split_ifs at hif with hne
    obtain ⟨rfl, rfl⟩ := Prod.mk.inj (Option.some.inj hif)
    have hget : (s.strategyPositions.getD Dict.empty).get? j = some held :=
      (Dict.get?_eq_some _).mpr hmem
    exact ⟨by simp only at hq; simp [hget, hq], hne⟩
  · rintro ⟨hposition, hne⟩
    cases hget : (s.strategyPositions.getD Dict.empty).get? i with
    | none =>
      simp only [hget, Option.elim_none] at hposition
      exact absurd hposition.symm hne
    | some held =>
      simp only [hget, Option.elim_some] at hposition
      cases hq : held.get? assetId with
      | none =>
        simp only [hq, Option.getD_none] at hposition
        exact absurd hposition.symm hne
      | some q =>
        simp only [hq, Option.getD_some] at hposition
        subst hposition
        exact ⟨(i, held), (Dict.get?_eq_some _).mp hget, q, hq, by simp [hne]⟩

theorem filterMap_names {α β γ : Type} {f : α × β → Option (α × γ)}
    (hf : ∀ e e', f e = some e' → e'.1 = e.1) (l : List (α × β)) :
    ((l.filterMap f).map Prod.fst).Sublist (l.map Prod.fst) := by
  induction l with
  | nil => exact List.Sublist.refl _
  | cons e l ih =>
    rw [List.map_cons]
    cases he : f e with
    | none =>
      rw [List.filterMap_cons_none he]
      exact ih.cons _
    | some e' =>
      rw [List.filterMap_cons_some he, List.map_cons, hf e e' he]
      exact ih.cons_cons _

theorem nodup_sharesOf (s : AllocationState) (assetId : String) :
    ((s.sharesOf assetId).map Prod.fst).Nodup := by
  refine (s.strategyPositions.getD Dict.empty).nodup.sublist (filterMap_names ?_ _)
  rintro ⟨i, held⟩ e' h
  obtain ⟨q, -, hq⟩ := Option.bind_eq_some_iff.mp h
  split_ifs at hq
  exact (congrArg Prod.fst (Option.some.inj hq)).symm

theorem partOf_eq {parts : List (String × Decimal)} {i : String}
    (hnodup : (parts.map Prod.fst).Nodup) {q : Decimal} (h : (i, q) ∈ parts) :
    partOf parts i = q := by
  induction parts with
  | nil => cases h
  | cons e parts ih =>
    rw [List.map_cons, List.nodup_cons] at hnodup
    rcases List.mem_cons.mp h with rfl | h
    · have hrest : parts.filter (fun e => decide (e.1 = i)) = [] := by
        refine List.filter_eq_nil_iff.mpr fun e he hi => ?_
        have hmem : e.1 ∈ parts.map Prod.fst := List.mem_map_of_mem he
        rw [of_decide_eq_true hi] at hmem
        exact hnodup.1 hmem
      simp [partOf, hrest]
    · have hne : e.1 ≠ i := by
        rintro rfl
        exact hnodup.1 (List.mem_map.mpr ⟨(e.1, q), h, rfl⟩)
      have := ih hnodup.2 h
      simpa [partOf, hne] using this

theorem partOf_sharesOf (s : AllocationState) (assetId i : String) :
    partOf (s.sharesOf assetId) i = s.positionOf i assetId := by
  by_cases hzero : s.positionOf i assetId = 0
  · have hnone : (s.sharesOf assetId).filter (fun e => decide (e.1 = i)) = [] := by
      refine List.filter_eq_nil_iff.mpr fun e he => ?_
      simp only [decide_eq_true_eq]
      rintro rfl
      obtain ⟨hposition, hne⟩ := mem_sharesOf.mp he
      exact hne (hposition.symm.trans hzero)
    rw [partOf, hnone, hzero]
    rfl
  · exact partOf_eq (nodup_sharesOf s assetId) (mem_sharesOf.mpr ⟨rfl, hzero⟩)

theorem sharesOf_eq_nil {assetId : String} :
    s.sharesOf assetId = [] ↔ ∀ i, s.positionOf i assetId = 0 := by
  constructor
  · intro h i
    rw [← partOf_sharesOf, h]
    rfl
  · intro h
    refine List.eq_nil_iff_forall_not_mem.mpr fun e he => ?_
    obtain ⟨hposition, hne⟩ := mem_sharesOf.mp he
    exact hne (hposition.symm.trans (h e.1))

/-- **A settled asset is held by no strategy**, and no other asset moves. -/
theorem positionOf_settleAsset (s : AllocationState) (assetId i a : String) :
    (s.settleAsset assetId).1.positionOf i a = if a = assetId then 0 else s.positionOf i a := by
  by_cases h : s.Recorded
  swap
  · have hnil : s.sharesOf assetId = [] := sharesOf_eq_nil.mpr fun i => positionOf_unrecorded h i _
    simp only [AllocationState.settleAsset, hnil, List.foldl_nil, positionOf_unrecorded h, ite_self]
  · -- a strategy is flat once its share is settled, and the others are as they were
    have hfold : ∀ (l : List (String × Decimal)) (t : AllocationState), t.Recorded →
        (l.foldl (fun s e => (s.settlePosition e.1 assetId 0).moveCapital e.1 assetId e.2 (-e.2) 0)
          t).positionOf i a = if a = assetId ∧ i ∈ l.map Prod.fst then 0 else t.positionOf i a := by
      intro l
      induction l with
      | nil => simp
      | cons e l ih =>
        intro t ht
        obtain ⟨hposition, hrecorded⟩ := positionOf_moved e.1 assetId 0 e.2 (-e.2) 0 ht i a
        rw [List.foldl_cons, ih _ hrecorded, hposition]
        by_cases ha : a = assetId
        · subst ha
          by_cases hi : i = e.1
          · simp [hi]
          · simp only [hi, true_and, false_and, if_false, List.map_cons, List.mem_cons, false_or]
        · simp [ha]
    simp only [AllocationState.settleAsset]
    rw [hfold _ s h]
    by_cases ha : a = assetId
    · subst ha
      rw [if_pos rfl]
      split_ifs with hmem
      · rfl
      · by_contra hne
        exact hmem ⟨rfl, List.mem_map.mpr ⟨(i, s.positionOf i a), mem_sharesOf.mpr ⟨rfl, hne⟩, rfl⟩⟩
    · simp [ha]

end

end AlphaLab
