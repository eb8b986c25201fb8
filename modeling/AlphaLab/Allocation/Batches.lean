/-
  What a batch of intents reserves for the strategies that have a ceiling.

  * `judge_within`: what the admitted deltas of a strategy commit, together with
    what it has committed already, is within its ceiling;
  * `allocate_committed`: a batch reserves no more for a strategy than its
    admitted deltas commit.
-/
import AlphaLab.Allocation.Engine

namespace AlphaLab

section
variable {s : AllocationState}

theorem capitalOf_setCapital (strategyId : String) (capital : StrategyCapital) (i : String) :
    (s.setCapital strategyId capital).capitalOf i =
      if i = strategyId then capital else s.capitalOf i := by
  unfold AllocationState.capitalOf AllocationState.setCapital
  rw [Dict.get?_set]
  split_ifs <;> rfl

end

/-! ## What the admitted deltas commit -/

def CeilingFold.committedFor (f : CeilingFold) (strategyId : String) : Decimal :=
  f.commitments.sum fun key amount => if key.1 = strategyId then amount else 0

/-- The admitted deltas of every ceilinged strategy fit beside what it has committed. -/
structure CeilingFold.Within (s : AllocationState) (f : CeilingFold) : Prop where
  nonneg : ∀ key amount, f.commitments.get? key = some amount → 0 ≤ amount
  counted : ∀ strategyId, f.committedFor strategyId ≤ (f.running.get? strategyId).getD 0
  fits : ∀ strategyId ceiling, s.budget.strategyCeiling strategyId = some ceiling →
    (s.capitalOf strategyId).committed + (f.running.get? strategyId).getD 0 ≤ ceiling

variable {f : CeilingFold} {d : SizedDelta}

section
variable {s : AllocationState} {b : AllocationInput}

theorem commitmentOf_nonneg (f : CeilingFold) (d : SizedDelta) : 0 ≤ f.commitmentOf s b d :=
  multiply_nonneg (addingExposure_nonneg _ _) (abs_nonneg _)

theorem fits_of_refusal_none {ceiling : Decimal} (h : f.refusal s b ceiling d = none)
    (hpos : 0 < f.commitmentOf s b d) :
    f.committedBefore s d.strategyId + f.commitmentOf s b d ≤ ceiling := by
  unfold CeilingFold.refusal at h
  dsimp only at h
  rw [if_neg (not_le.mpr hpos)] at h
  split_ifs at h with _ hover
  exact not_lt.mp hover

theorem committedFor_accept (f : CeilingFold) (d : SizedDelta) (strategyId : String) :
    (f.accept s b d).committedFor strategyId =
      f.committedFor strategyId + if d.strategyId = strategyId then f.commitmentOf s b d else 0 := by
  unfold CeilingFold.committedFor CeilingFold.accept
  rw [Dict.sum_set, Dict.sumAt]
  by_cases hi : d.strategyId = strategyId
  · cases f.commitments.get? (d.strategyId, d.assetId, d.terms) with
    | none => simp [hi]
    | some old =>
      simp only [hi, Option.elim_some, Option.getD_some, if_true]
      ring
  · cases f.commitments.get? (d.strategyId, d.assetId, d.terms) <;> simp [hi]

theorem running_accept (f : CeilingFold) (d : SizedDelta) (strategyId : String) :
    ((f.accept s b d).running.get? strategyId).getD 0 =
      (f.running.get? strategyId).getD 0 +
        if d.strategyId = strategyId then f.commitmentOf s b d else 0 := by
  unfold CeilingFold.accept
  dsimp only
  split_ifs with hpos hi hi
  · simp [hi]
  · simp [Dict.get?_set, Ne.symm hi]
  · rw [le_antisymm (not_lt.mp hpos) (commitmentOf_nonneg f d), add_zero]
  · rw [add_zero]

theorem judge_within (d : SizedDelta) (hf : f.Within s) : (f.judge s b d).Within s := by
  unfold CeilingFold.judge
  cases hceiling : s.budget.strategyCeiling d.strategyId with
  | none => exact ⟨hf.nonneg, hf.counted, hf.fits⟩
  | some ceiling =>
    dsimp only
    cases hrefusal : f.refusal s b ceiling d with
    | some reason => exact ⟨hf.nonneg, hf.counted, hf.fits⟩
    | none =>
      refine ⟨?_, ?_, ?_⟩
      · intro key amount hget
        change (f.commitments.set _ _).get? key = some amount at hget
        rw [Dict.get?_set] at hget
        split_ifs at hget with hkey
        · rw [← Option.some.inj hget]
          refine add_nonneg ?_ (commitmentOf_nonneg f d)
          cases hold : f.commitments.get? (d.strategyId, d.assetId, d.terms) with
          | none => exact le_rfl
          | some old => exact hf.nonneg _ _ hold
        · exact hf.nonneg key amount hget
      · intro strategyId
        rw [committedFor_accept, running_accept]
        have hcounted := hf.counted strategyId
        gcongr
      · intro strategyId limit hlimit
        rw [running_accept]
        have hbefore := hf.fits strategyId limit hlimit
        split_ifs with hi
        · subst hi
          obtain rfl : ceiling = limit := Option.some.inj (hceiling.symm.trans hlimit)
          rcases (commitmentOf_nonneg f d (s := s) (b := b)).lt_or_eq with hpos | hzero
          · have hfits := fits_of_refusal_none hrefusal hpos
            rw [CeilingFold.committedBefore] at hfits
            linarith
          · rw [← hzero, add_zero]
            exact hbefore
        · rw [add_zero]
          exact hbefore

/-- **What a batch admits is within the ceilings**, if what is committed is. -/
theorem withinCeilings_within {sized : List SizedDelta}
    (hs : ∀ strategyId ceiling, s.budget.strategyCeiling strategyId = some ceiling →
      (s.capitalOf strategyId).committed ≤ ceiling) : (withinCeilings s b sized).Within s := by
  have hempty : ∀ admitted, CeilingFold.Within s { admitted := admitted } := by
    intro admitted
    refine ⟨by simp, by simp [CeilingFold.committedFor], ?_⟩
    intro strategyId ceiling hceiling
    simpa using hs strategyId ceiling hceiling
  unfold withinCeilings
  split_ifs
  · have hfold : ∀ (l : List SizedDelta) (f : CeilingFold), f.Within s →
        (l.foldl (CeilingFold.judge s b) f).Within s := by
      intro l
      induction l with
      | nil => exact fun f hf => hf
      | cons d l ih => exact fun f hf => ih _ (judge_within d hf)
    exact hfold sized {} (hempty [])
  · exact hempty sized

end

/-! ## The orders of a batch -/

def EmittedOrder.key (e : EmittedOrder) : String × OrderTerms := (e.request.assetId, e.request.terms)

theorem emitOrder_emitted (b : AllocationInput) (sized : List SizedDelta) (f : EmitFold)
    (net : (String × OrderTerms) × Decimal) :
    (f.emitOrder b sized net).emitted = f.emitted ∨
      ∃ e : EmittedOrder, (f.emitOrder b sized net).emitted = f.emitted ++ [e] ∧
        wholeNet b net.2 ≠ 0 ∧
        e.request = orderOf b sized f.emitted.length net.1 (wholeNet b net.2) := by
  unfold EmitFold.emitOrder
  dsimp only
  split_ifs with hzero
  · exact Or.inl rfl
  · split
    · exact Or.inl rfl
    · exact Or.inr ⟨_, rfl, hzero, rfl⟩

def IsOrderOf (b : AllocationInput) (sized : List SizedDelta)
    (net : (String × OrderTerms) × Decimal) (o : OrderRequest) : Prop :=
  wholeNet b net.2 ≠ 0 ∧ ∃ index, o = orderOf b sized index net.1 (wholeNet b net.2)

/-- The orders emitted for some nets: one a net at most, in their order, numbered on. -/
theorem emitted_fold (b : AllocationInput) (sized : List SizedDelta)
    (nets : List ((String × OrderTerms) × Decimal)) (f : EmitFold) :
    ∃ new : List EmittedOrder,
      (nets.foldl (EmitFold.emitOrder b sized) f).emitted = f.emitted ++ new ∧
      (new.map EmittedOrder.key).Sublist (nets.map Prod.fst) ∧
      new.map (·.request.orderId) = (List.range' f.emitted.length new.length).map b.newId ∧
      ∀ e ∈ new, ∃ net ∈ nets, IsOrderOf b sized net e.request := by
  induction nets generalizing f with
  | nil => exact ⟨[], by simp⟩
  | cons net nets ih =>
    obtain ⟨new, hnew, hsub, hids, horders⟩ := ih (f.emitOrder b sized net)
    rw [List.foldl_cons, hnew]
    have hlater : ∀ e ∈ new, ∃ net' ∈ net :: nets, IsOrderOf b sized net' e.request := by
      intro e he
      obtain ⟨net', hnet', horder⟩ := horders e he
      exact ⟨net', List.mem_cons_of_mem _ hnet', horder⟩
    rcases emitOrder_emitted b sized f net with hnone | ⟨e, he, hzero, hrequest⟩
    · rw [hnone] at hids ⊢
      exact ⟨new, rfl, hsub.cons net.1, hids, hlater⟩
    · rw [he, List.length_append, List.length_singleton] at hids
      have hkey : e.key = net.1 := by rw [EmittedOrder.key, hrequest, orderOf]
      refine ⟨e :: new, by rw [he]; simp, ?_, ?_, ?_⟩
      · rw [List.map_cons, List.map_cons, hkey]
        exact hsub.cons_cons net.1
      · rw [List.map_cons, hids, List.length_cons, List.range'_succ, List.map_cons, hrequest,
          orderOf]
      · intro e' he'
        rcases List.mem_cons.mp he' with rfl | he'
        · exact ⟨net, by simp, hzero, _, hrequest⟩
        · exact hlater e' he'

/-- **A batch emits at most one order for an asset and terms**: that of its net, under
    an identifier of its own. -/
theorem emitted_orders (b : AllocationInput) (sized : List SizedDelta) :
    ((emitOrders b sized).emitted.map EmittedOrder.key).Nodup ∧
      (Function.Injective b.newId →
        ((emitOrders b sized).emitted.map (·.request.orderId)).Nodup) ∧
      ∀ e ∈ (emitOrders b sized).emitted, ∃ quantity,
        (netByTerms sized).get? e.key = some quantity ∧
          IsOrderOf b sized (e.key, quantity) e.request := by
  obtain ⟨new, hnew, hsub, hids, horders⟩ :=
    emitted_fold b sized (netByTerms sized).entries { projected := b.positions }
  rw [List.nil_append] at hnew
  have hperm : (emitOrders b sized).emitted.Perm new := by
    rw [emitOrders]
    dsimp only
    rw [hnew]
    simpa using List.filter_append_perm (fun e : EmittedOrder => e.reduces) new
  refine ⟨?_, ?_, ?_⟩
  · rw [(hperm.map _).nodup_iff]
    exact (Dict.nodup _).sublist hsub
  · intro hinjective
    rw [(hperm.map _).nodup_iff, hids]
    exact List.Nodup.map hinjective List.nodup_range'
  · intro e he
    obtain ⟨net, hnet, horder⟩ := horders e (hperm.mem_iff.mp he)
    obtain ⟨_, index, hrequest⟩ := id horder
    have hkey : e.key = net.1 := by rw [EmittedOrder.key, hrequest, orderOf]
    exact ⟨net.2, (Dict.get?_eq_some _).mpr (hkey ▸ hnet), hkey ▸ horder⟩

theorem emitted_named (b : AllocationInput) (sized : List SizedDelta) :
    ∀ e ∈ (emitOrders b sized).emitted, (e.request.contributions.map (·.strategyId)).Nodup := by
  intro e he
  obtain ⟨quantity, _, _, index, hrequest⟩ := (emitted_orders b sized).2.2 e he
  rw [hrequest]
  exact contributionsFrom_nodup _

/-! ## From intents to orders -/

def sizedDelta (s : AllocationState) (b : AllocationInput) (i : Intent) : Option SizedDelta :=
  (sizeIntent s b i).bind fun quantity =>
    if i.isTarget ∧ quantity = 0 then none
    else some ⟨i.strategyId, i.instrument, i.terms, quantity⟩

def admittedDeltas (s : AllocationState) (b : AllocationInput) : List SizedDelta :=
  (withinCeilings s b (sizeIntents s b (screenIntents b.timestamp b.intents).1).1).admitted

section
variable {s : AllocationState} {b : AllocationInput}

theorem sizeIntents_eq (intents : List Intent) :
    (sizeIntents s b intents).1 = intents.filterMap (sizedDelta s b) := by
  unfold sizeIntents
  induction intents using List.reverseRecOn with
  | nil => rfl
  | append_singleton intents i ih =>
    rw [List.foldl_append, List.foldl_cons, List.foldl_nil, List.filterMap_append, ← ih,
      List.filterMap_cons, List.filterMap_nil, sizedDelta]
    set sized := intents.foldl _ _
    cases sizeIntent s b i with
    | none => simp
    | some quantity =>
      by_cases hzero : i.isTarget ∧ quantity = 0
      · simp [hzero]
      · simp [hzero]

theorem screenIntents_kept (timestamp : Instant) (intents : List Intent) :
    (∀ i ∈ (screenIntents timestamp intents).1,
      i ∈ intents ∧ i.isValid ∧ i.asksForOrder) ∧
    ((screenIntents timestamp intents).1.map Intent.key).Nodup := by
  unfold screenIntents
  induction intents using List.reverseRecOn with
  | nil => simp
  | append_singleton intents i ih =>
    rw [List.foldl_append, List.foldl_cons, List.foldl_nil]
    obtain ⟨hkept, hkeys⟩ := ih
    set screened := intents.foldl _ _ with hscreened
    have hmono : ∀ j ∈ screened.1, j ∈ intents ++ [i] ∧ j.isValid ∧ j.asksForOrder := by
      intro j hj
      obtain ⟨hmem, hvalid, hasks⟩ := hkept j hj
      exact ⟨List.mem_append_left _ hmem, hvalid, hasks⟩
    dsimp only
    by_cases hvalid : i.isValid = true
    · by_cases hasks : i.asksForOrder = true
      · by_cases htwice : i.key ∈ screened.1.map Intent.key
        · rw [if_neg (not_not.mpr hvalid), if_neg (not_not.mpr hasks), if_pos htwice]
          exact ⟨hmono, hkeys⟩
        · rw [if_neg (not_not.mpr hvalid), if_neg (not_not.mpr hasks), if_neg htwice]
          constructor
          · intro j hj
            rcases List.mem_append.mp hj with hj | hj
            · exact hmono j hj
            · obtain rfl := List.mem_singleton.mp hj
              exact ⟨by simp, hvalid, hasks⟩
          · rw [List.map_append, List.map_singleton, List.nodup_append]
            refine ⟨hkeys, List.nodup_singleton _, ?_⟩
            intro a ha c hc
            rw [List.mem_singleton.mp hc]
            rintro rfl
            exact htwice ha
      · rw [if_neg (not_not.mpr hvalid), if_pos hasks]
        exact ⟨hmono, hkeys⟩
    · rw [if_pos hvalid]
      exact ⟨hmono, hkeys⟩

theorem withinCeilings_sublist (sized : List SizedDelta) :
    (withinCeilings s b sized).admitted.Sublist sized := by
  have hfold : ∀ (l : List SizedDelta) (f : CeilingFold),
      ∃ new, (l.foldl (CeilingFold.judge s b) f).admitted = f.admitted ++ new ∧
        new.Sublist l := by
    intro l
    induction l with
    | nil => exact fun f => ⟨[], by simp⟩
    | cons d l ih =>
      intro f
      obtain ⟨new, hnew, hsub⟩ := ih (f.judge s b d)
      have hjudge : (f.judge s b d).admitted = f.admitted ∨
          (f.judge s b d).admitted = f.admitted ++ [d] := by
        unfold CeilingFold.judge
        split
        · exact Or.inr rfl
        · split
          · exact Or.inl rfl
          · exact Or.inr rfl
      rw [List.foldl_cons, hnew]
      rcases hjudge with h | h
      · exact ⟨new, by rw [h], hsub.cons d⟩
      · exact ⟨d :: new, by rw [h]; simp, hsub.cons_cons d⟩
  unfold withinCeilings
  split_ifs
  · obtain ⟨new, hnew, hsub⟩ := hfold sized {}
    rw [hnew]
    exact hsub
  · exact List.Sublist.refl _

variable {i : Intent}

theorem sizedDelta_eq_some :
    sizedDelta s b i = some d ↔ ∃ quantity, sizeIntent s b i = some quantity ∧
      ¬ (i.isTarget ∧ quantity = 0) ∧ d = ⟨i.strategyId, i.instrument, i.terms, quantity⟩ := by
  unfold sizedDelta
  rw [Option.bind_eq_some_iff]
  refine exists_congr fun quantity => and_congr_right fun _ => ?_
  split_ifs with hzero
  · simp [hzero]
  · rw [Option.some.injEq]
    exact ⟨fun h => ⟨hzero, h.symm⟩, fun h => h.2.symm⟩

/-- The only delta of a strategy in an asset, if one intent alone states it. -/
theorem filter_deltas_alone {kept : List Intent} (hnodup : kept.Nodup) (hi : i ∈ kept)
    (hd : sizedDelta s b i = some d)
    (halone : ∀ j ∈ kept, j.strategyId = i.strategyId → j.instrument = i.instrument → j = i)
    {p : SizedDelta → Bool}
    (hp : ∀ e, p e = true → e.strategyId = i.strategyId ∧ e.assetId = i.instrument) :
    (kept.filterMap (sizedDelta s b)).filter p = [d].filter p := by
  obtain ⟨before, after, rfl⟩ := List.append_of_mem hi
  rw [List.nodup_append, List.nodup_cons] at hnodup
  have hothers : ∀ l : List Intent, (∀ j ∈ l, j ∈ before ++ i :: after) → i ∉ l →
      (l.filterMap (sizedDelta s b)).filter p = [] := by
    intro l hl hnot
    refine List.filter_eq_nil_iff.mpr fun e he hpe => ?_
    obtain ⟨j, hj, hje⟩ := List.mem_filterMap.mp he
    obtain ⟨_, _, _, rfl⟩ := sizedDelta_eq_some.mp hje
    obtain ⟨hs, ha⟩ := hp _ hpe
    exact hnot (halone j (hl j hj) hs ha ▸ hj)
  have hbefore := hothers before (fun j hj => List.mem_append_left _ hj)
    (fun h => hnodup.2.2 i h i (by simp) rfl)
  have hafter := hothers after (fun j hj => List.mem_append_right _ (by simp [hj])) hnodup.2.1.1
  rw [List.filterMap_append, List.filter_append, hbefore, List.nil_append, List.filterMap_cons, hd]
  dsimp only
  rw [← List.singleton_append, List.filter_append, hafter, List.append_nil]

/-- **What a strategy that states one intent in an asset contributes**: what that intent
    is sized to. -/
theorem contribution_of_alone {key : String × OrderTerms} {c : StrategyContribution} (halone : ∀ j ∈
      b.intents, j.isValid → j.asksForOrder → j.strategyId = i.strategyId → j.instrument =
      i.instrument → j = i) (hc : c ∈ contributionsByTerms (admittedDeltas s b) key)
    (hstrategy : c.strategyId = i.strategyId) (hasset : key.1 = i.instrument) :
    sizedDelta s b i = some ⟨i.strategyId, i.instrument, i.terms, c.quantity⟩ ∧
      key = (i.instrument, i.terms) := by
  obtain ⟨hkept, hkeys⟩ := screenIntents_kept b.timestamp b.intents
  set kept := (screenIntents b.timestamp b.intents).1 with hkeptdef
  have hsub : (admittedDeltas s b).Sublist (kept.filterMap (sizedDelta s b)) := by
    rw [← sizeIntents_eq]
    exact withinCeilings_sublist _
  have halone' : ∀ j ∈ kept, j.strategyId = i.strategyId → j.instrument = i.instrument →
      j = i := by
    intro j hj
    obtain ⟨hmem, hvalid, hasks⟩ := hkept j hj
    exact halone j hmem hvalid hasks
  obtain ⟨x, hx, hxc⟩ := List.mem_map.mp (contributionsFrom_mem hc)
  obtain ⟨d, hd, rfl⟩ := List.mem_map.mp hx
  rw [List.mem_filter] at hd
  have hkey : (d.assetId, d.terms) = key := of_decide_eq_true hd.2
  obtain ⟨j, hj, hsized⟩ := List.mem_filterMap.mp (hsub.subset hd.1)
  obtain ⟨quantity, _, _, rfl⟩ := sizedDelta_eq_some.mp hsized
  have hji : j = i := halone' j hj (hxc.trans hstrategy) (by rw [← hasset, ← hkey])
  subst hji
  -- its delta is the only one that the contribution adds up
  have hfilter := filter_deltas_alone hkeys.of_map hj hsized halone'
    (p := fun e => decide (e.strategyId = j.strategyId ∧ (e.assetId, e.terms) = key))
    (by
      intro e he
      obtain ⟨hs, ha⟩ := of_decide_eq_true he
      exact ⟨hs, by rw [← hasset, ← ha]⟩)
  have honly : (admittedDeltas s b).filter
      (fun e => decide (e.strategyId = j.strategyId ∧ (e.assetId, e.terms) = key)) =
      [⟨j.strategyId, j.instrument, j.terms, quantity⟩] := by
    have hsingle := hsub.filter
      (fun e => decide (e.strategyId = j.strategyId ∧ (e.assetId, e.terms) = key))
    rw [hfilter, List.filter_cons_of_pos (by simp [hkey]), List.filter_nil] at hsingle
    rcases List.sublist_singleton.mp hsingle with hnil | hone
    · have hmem : (⟨j.strategyId, j.instrument, j.terms, quantity⟩ : SizedDelta) ∈
          (admittedDeltas s b).filter
            (fun e => decide (e.strategyId = j.strategyId ∧ (e.assetId, e.terms) = key)) :=
        List.mem_filter.mpr ⟨hd.1, by simp [hkey]⟩
      rw [hnil] at hmem
      cases hmem
    · exact hone
  have hquantity : c.quantity = quantity := by
    rw [contributionsFrom_quantity hc, hstrategy, List.filter_map, List.map_map,
      List.filter_filter]
    have hsame : (fun e : SizedDelta => ((fun x : String × Decimal =>
        decide (x.1 = j.strategyId)) ∘ fun d => (d.strategyId, d.quantity)) e &&
          decide ((e.assetId, e.terms) = key)) =
        fun e => decide (e.strategyId = j.strategyId ∧ (e.assetId, e.terms) = key) := by
      funext e
      simp [Bool.decide_and]
    rw [hsame, honly]
    simp
  rw [hquantity]
  exact ⟨hsized, hkey.symm⟩

end

/-! ## What a batch reserves -/

def ReservesNonneg (s : AllocationState) : Prop :=
  ∀ strategyId orderId, 0 ≤ (s.capitalOf strategyId).reservedFor orderId

def reservesFor (commitments : Dict CommitmentKey Decimal) (request : OrderRequest)
    (strategyId : String) : Decimal :=
  (commitments.get? (strategyId, request.assetId, request.terms)).getD 0

section
variable {s : AllocationState} {commitments : Dict CommitmentKey Decimal}

theorem reservedFor_reserve (c : StrategyCapital) {orderId : String} {amount : Decimal}
    (hamount : 0 ≤ amount) (hc : ∀ o, 0 ≤ c.reservedFor o) (o : String) :
    0 ≤ (c.reserve orderId amount).reservedFor o := by
  unfold StrategyCapital.reserve
  split_ifs
  · exact hc o
  · unfold StrategyCapital.reservedFor
    rw [Dict.get?_set]
    split_ifs
    · exact add_nonneg (hc orderId) hamount
    · exact hc o

variable (emitted : List EmittedOrder) (request : OrderRequest)

theorem reserveCapital_step (c : StrategyContribution)
    (hnonneg : ∀ key amount, commitments.get? key = some amount → 0 ≤ amount)
    (hs : ReservesNonneg s) :
    (reserveCapital commitments request s c).budget = s.budget ∧
      ReservesNonneg (reserveCapital commitments request s c) ∧
      ∀ strategyId, ((reserveCapital commitments request s c).capitalOf strategyId).committed =
        (s.capitalOf strategyId).committed +
          if c.strategyId = strategyId then reservesFor commitments request strategyId else 0 := by
  unfold reserveCapital reservesFor
  cases hget : commitments.get? (c.strategyId, request.assetId, request.terms) with
  | none =>
    refine ⟨rfl, hs, ?_⟩
    intro strategyId
    split_ifs with hi
    · rw [← hi, hget]
      simp
    · simp
  | some amount =>
    have hamount : 0 ≤ amount := hnonneg _ _ hget
    refine ⟨rfl, ?_, ?_⟩
    · intro strategyId orderId
      dsimp only
      rw [capitalOf_setCapital]
      split_ifs
      · exact reservedFor_reserve _ hamount (hs c.strategyId) orderId
      · exact hs strategyId orderId
    · intro strategyId
      dsimp only
      rw [capitalOf_setCapital]
      by_cases hi : c.strategyId = strategyId
      · subst hi
        rw [if_pos rfl, if_pos rfl, reserve_committed _ _ hamount, hget, Option.getD_some]
      · rw [if_neg (Ne.symm hi), if_neg hi, add_zero]

theorem reserveCapital_kept (s : AllocationState) (commitments : Dict CommitmentKey Decimal)
    (request : OrderRequest) (c : StrategyContribution) :
    (reserveCapital commitments request s c).contributions = s.contributions ∧
      (reserveCapital commitments request s c).strategyPositions = s.strategyPositions ∧
      (reserveCapital commitments request s c).budget = s.budget := by
  unfold reserveCapital
  split
  · exact ⟨rfl, rfl, rfl⟩
  · exact ⟨rfl, rfl, rfl⟩

theorem reserveCapital_fold_kept (commitments : Dict CommitmentKey Decimal)
    (request : OrderRequest) (contributions : List StrategyContribution) :
    (contributions.foldl (reserveCapital commitments request) s).contributions =
        s.contributions ∧
      (contributions.foldl (reserveCapital commitments request) s).strategyPositions =
        s.strategyPositions ∧
      (contributions.foldl (reserveCapital commitments request) s).budget = s.budget := by
  induction contributions generalizing s with
  | nil => exact ⟨rfl, rfl, rfl⟩
  | cons c contributions ih =>
    obtain ⟨hcontributions, hpositions, hbudget⟩ :=
      ih (s := reserveCapital commitments request s c)
    obtain ⟨hc, hp, hb⟩ := reserveCapital_kept s commitments request c
    exact ⟨hcontributions.trans hc, hpositions.trans hp, hbudget.trans hb⟩

theorem reserveOrder_kept (s : AllocationState) (commitments : Dict CommitmentKey Decimal)
    (e : EmittedOrder) :
    (reserveOrder commitments s e).contributions =
        s.contributions.set e.request.orderId e.request.contributions ∧
      (reserveOrder commitments s e).strategyPositions = s.strategyPositions ∧
      (reserveOrder commitments s e).budget = s.budget :=
  reserveCapital_fold_kept commitments e.request e.request.contributions

/-- The orders of a batch are entered under their own identifiers. -/
theorem reserveOrder_fold_kept (commitments : Dict CommitmentKey Decimal)
    (emitted : List EmittedOrder) :
    (emitted.foldl (reserveOrder commitments) s).strategyPositions = s.strategyPositions ∧
      (emitted.foldl (reserveOrder commitments) s).budget = s.budget ∧
      (∀ orderId, orderId ∉ emitted.map (·.request.orderId) →
        (emitted.foldl (reserveOrder commitments) s).contributions.get? orderId =
          s.contributions.get? orderId) ∧
      ((emitted.map (·.request.orderId)).Nodup → ∀ e ∈ emitted,
        (emitted.foldl (reserveOrder commitments) s).contributions.get? e.request.orderId =
          some e.request.contributions) := by
  induction emitted generalizing s with
  | nil => simp
  | cons e emitted ih =>
    obtain ⟨hc, hp, hb⟩ := reserveOrder_kept s commitments e
    obtain ⟨hpositions, hbudget, hothers, hown⟩ := ih (s := reserveOrder commitments s e)
    refine ⟨hpositions.trans hp, hbudget.trans hb, ?_, ?_⟩
    · intro orderId hid
      rw [List.map_cons, List.mem_cons, not_or] at hid
      rw [List.foldl_cons, hothers orderId hid.2, hc, Dict.get?_set_of_ne _ _ hid.1]
    · intro hnodup e' he'
      rw [List.map_cons, List.nodup_cons] at hnodup
      rw [List.foldl_cons]
      rcases List.mem_cons.mp he' with rfl | he'
      · rw [hothers _ hnodup.1, hc, Dict.get?_set_self]
      · exact hown hnodup.2 e' he'

theorem reserveCapital_fold (contributions : List StrategyContribution)
    (hnonneg : ∀ key amount, commitments.get? key = some amount → 0 ≤ amount)
    (hnamed : (contributions.map (·.strategyId)).Nodup) (hs : ReservesNonneg s) :
    (contributions.foldl (reserveCapital commitments request) s).budget = s.budget ∧
      ReservesNonneg (contributions.foldl (reserveCapital commitments request) s) ∧
      ∀ strategyId,
        ((contributions.foldl (reserveCapital commitments request) s).capitalOf
            strategyId).committed =
          (s.capitalOf strategyId).committed +
            if strategyId ∈ contributions.map (·.strategyId) then
              reservesFor commitments request strategyId else 0 := by
  induction contributions generalizing s with
  | nil => exact ⟨rfl, hs, by simp⟩
  | cons c contributions ih =>
    rw [List.map_cons, List.nodup_cons] at hnamed
    obtain ⟨hbudget, hreserves, hcommitted⟩ := reserveCapital_step request c hnonneg hs
    obtain ⟨hbudget', hreserves', hcommitted'⟩ := ih hnamed.2 hreserves
    refine ⟨hbudget'.trans hbudget, hreserves', ?_⟩
    intro strategyId
    rw [List.foldl_cons, hcommitted', hcommitted]
    by_cases hi : c.strategyId = strategyId
    · subst hi
      simp [hnamed.1]
    · simp [hi, Ne.symm hi]

theorem reserveOrder_step (e : EmittedOrder)
    (hnonneg : ∀ key amount, commitments.get? key = some amount → 0 ≤ amount)
    (hnamed : (e.request.contributions.map (·.strategyId)).Nodup) (hs : ReservesNonneg s) :
    (reserveOrder commitments s e).budget = s.budget ∧
      ReservesNonneg (reserveOrder commitments s e) ∧
      ∀ strategyId, ((reserveOrder commitments s e).capitalOf strategyId).committed ≤
        (s.capitalOf strategyId).committed + reservesFor commitments e.request strategyId := by
  obtain ⟨hbudget, hreserves, hcommitted⟩ :=
    reserveCapital_fold e.request e.request.contributions hnonneg hnamed
      (s := { s with
        reservations := s.reservations.set e.request.orderId e.commitment
        contributions := s.contributions.set e.request.orderId e.request.contributions }) hs
  refine ⟨hbudget, hreserves, ?_⟩
  intro strategyId
  unfold reserveOrder
  dsimp only
  rw [hcommitted]
  have hzero : 0 ≤ reservesFor commitments e.request strategyId := by
    unfold reservesFor
    cases hget : commitments.get? (strategyId, e.request.assetId, e.request.terms) with
    | none => exact le_rfl
    | some amount => exact hnonneg _ _ hget
  split_ifs
  · exact le_rfl
  · exact add_le_add_right hzero _

theorem reserveOrder_fold (hnonneg : ∀ key amount, commitments.get? key = some amount → 0 ≤ amount)
    (hnamed : ∀ e ∈ emitted, (e.request.contributions.map (·.strategyId)).Nodup)
    (hs : ReservesNonneg s) :
    (emitted.foldl (reserveOrder commitments) s).budget = s.budget ∧
      ReservesNonneg (emitted.foldl (reserveOrder commitments) s) ∧
      ∀ strategyId,
        ((emitted.foldl (reserveOrder commitments) s).capitalOf strategyId).committed ≤
          (s.capitalOf strategyId).committed +
            (emitted.map fun e => reservesFor commitments e.request strategyId).sum := by
  induction emitted generalizing s with
  | nil => exact ⟨rfl, hs, by simp⟩
  | cons e emitted ih =>
    obtain ⟨hbudget, hreserves, hcommitted⟩ :=
      reserveOrder_step e hnonneg (hnamed e (by simp)) hs
    obtain ⟨hbudget', hreserves', hcommitted'⟩ :=
      ih (fun e' he' => hnamed e' (by simp [he'])) hreserves
    refine ⟨hbudget'.trans hbudget, hreserves', ?_⟩
    intro strategyId
    rw [List.foldl_cons, List.map_cons, List.sum_cons]
    linarith [hcommitted strategyId, hcommitted' strategyId]

def StrategiesNamed (s : AllocationState) : Prop :=
  ∀ orderId, ((s.contributionsFor orderId).map (·.strategyId)).Nodup

theorem reserveOrder_fold_named
    (hnamed : ∀ e ∈ emitted, (e.request.contributions.map (·.strategyId)).Nodup)
    (hs : StrategiesNamed s) : StrategiesNamed (emitted.foldl (reserveOrder commitments) s) := by
  induction emitted generalizing s with
  | nil => exact hs
  | cons e emitted ih =>
    refine ih (fun e' he' => hnamed e' (by simp [he'])) ?_
    intro orderId
    rw [AllocationState.contributionsFor, (reserveOrder_kept s commitments e).1, Dict.get?_set]
    split_ifs
    · exact hnamed e (by simp)
    · exact hs orderId

/-- The orders of a batch reserve no more for a strategy than its deltas commit. -/
theorem reserves_sum_le {emitted : List EmittedOrder}
    (hnonneg : ∀ key amount, f.commitments.get? key = some amount → 0 ≤ amount)
    (hkeys : (emitted.map EmittedOrder.key).Nodup) (strategyId : String) :
    (emitted.map fun e => reservesFor f.commitments e.request strategyId).sum ≤
      f.committedFor strategyId := by
  have hsum : (emitted.map fun e => reservesFor f.commitments e.request strategyId) =
      (emitted.map fun e => (strategyId, e.key)).map
        (f.commitments.sumAt fun key amount => if key.1 = strategyId then amount else 0) := by
    rw [List.map_map]
    refine List.map_congr_left fun e _ => ?_
    rw [Function.comp_apply, Dict.sumAt, reservesFor, EmittedOrder.key]
    cases f.commitments.get? (strategyId, e.request.assetId, e.request.terms) <;> simp
  have hnodup : (emitted.map fun e => (strategyId, e.key)).Nodup := by
    have hpair : (emitted.map fun e => (strategyId, e.key)) =
        (emitted.map EmittedOrder.key).map (Prod.mk strategyId) := by
      simp
    rw [hpair]
    exact hkeys.map (Prod.mk_right_injective strategyId)
  rw [hsum, CeilingFold.committedFor]
  refine Dict.sum_sumAt_le _ _ ?_ hnodup
  intro key amount hget
  split_ifs
  · exact hnonneg key amount hget
  · exact le_rfl

end

/-- **A batch commits no more for a strategy than its ceiling leaves.** -/
theorem allocate_committed {s : AllocationState} (b : AllocationInput) (hs : ReservesNonneg s)
    (hwithin : ∀ strategyId ceiling, s.budget.strategyCeiling strategyId = some ceiling →
      (s.capitalOf strategyId).committed ≤ ceiling) :
    (allocate s b).1.budget = s.budget ∧ ReservesNonneg (allocate s b).1 ∧
      ∀ strategyId ceiling, s.budget.strategyCeiling strategyId = some ceiling →
        ((allocate s b).1.capitalOf strategyId).committed ≤ ceiling := by
  unfold allocate
  dsimp only
  split_ifs
  · exact ⟨rfl, hs, hwithin⟩
  · set admitted := withinCeilings s b (sizeIntents s b (screenIntents b.timestamp b.intents).1).1
      with hadmitted
    have hf : admitted.Within s := withinCeilings_within hwithin
    have hkeys := (emitted_orders b admitted.admitted).1
    have hnamed := emitted_named b admitted.admitted
    obtain ⟨hbudget, hreserves, hcommitted⟩ :=
      reserveOrder_fold _ hf.nonneg hnamed hs
    refine ⟨hbudget, hreserves, ?_⟩
    intro strategyId ceiling hceiling
    have hreserved := hcommitted strategyId
    have hsum := reserves_sum_le hf.nonneg hkeys strategyId
    have hcounted := hf.counted strategyId
    have hfits := hf.fits strategyId ceiling hceiling
    calc ((_ : AllocationState).capitalOf strategyId).committed
        ≤ _ := hreserved
      _ ≤ (s.capitalOf strategyId).committed + (admitted.running.get? strategyId).getD 0 := by
          linarith
      _ ≤ ceiling := hfits
  · exact ⟨rfl, hs, hwithin⟩

theorem allocate_named {s : AllocationState} (b : AllocationInput) (hs : StrategiesNamed s) :
    StrategiesNamed (allocate s b).1 := by
  unfold allocate
  dsimp only
  split_ifs
  · exact hs
  · exact reserveOrder_fold_named _ (emitted_named _ _) hs
  · exact hs

theorem allocate_kept (s : AllocationState) (b : AllocationInput) :
    (allocate s b).1.strategyPositions = s.strategyPositions ∧
      (allocate s b).1.budget = s.budget := by
  unfold allocate
  dsimp only
  split_ifs
  · exact ⟨rfl, rfl⟩
  · obtain ⟨hpositions, hbudget, _⟩ := reserveOrder_fold_kept (s := s) _ _
    exact ⟨hpositions, hbudget⟩
  · exact ⟨rfl, rfl⟩

/-- **The orders of a batch**: each that of the net of an asset on some terms, its
    contributions entered under its identifier. -/
theorem allocate_orders {s : AllocationState} {b : AllocationInput}
    (hnew : Function.Injective b.newId) :
    ((allocate s b).2.map fun o => (o.assetId, o.terms)).Nodup ∧
      ∀ o ∈ (allocate s b).2,
        (allocate s b).1.contributions.get? o.orderId = some o.contributions ∧
        ∃ quantity, (netByTerms (admittedDeltas s b)).get? (o.assetId, o.terms) = some quantity ∧
          IsOrderOf b (admittedDeltas s b) ((o.assetId, o.terms), quantity) o := by
  unfold allocate
  dsimp only
  split_ifs
  · simp
  · obtain ⟨hkeys, hids, horders⟩ := emitted_orders b (admittedDeltas s b)
    obtain ⟨_, _, _, hown⟩ := reserveOrder_fold_kept (s := s)
      (withinCeilings s b (sizeIntents s b (screenIntents b.timestamp b.intents).1).1).commitments
      (emitOrders b (admittedDeltas s b)).emitted
    constructor
    · rw [List.map_map]
      exact hkeys
    · intro o ho
      obtain ⟨e, he, rfl⟩ := List.mem_map.mp ho
      exact ⟨hown (hids hnew) e he, horders e he⟩
  · simp

end AlphaLab
