/-
  What each strategy contributed to a netted order, and how an amount is divided
  among the strategies that asked for it (`core/contribution.py`).

  * `contributionsFrom` adds up what each strategy sized, `netOf` is the net;
  * `splitByContribution` rounds every share but the last, which takes the rest:
    the parts add up to the amount (`split_eq_some`);
  * `shareResidue` is what the rounding of one share leaves behind.
-/
import AlphaLab.Portfolio.Money
import Mathlib.Data.String.Basic

namespace AlphaLab

open Rounding

/-- `StrategyContribution`: one strategy's signed share of a netted order. -/
structure StrategyContribution where
  strategyId : String
  quantity : Decimal
deriving DecidableEq

/-- `contributions_from`: one contribution a strategy, in the order of their
    identifiers. -/
def contributionsFrom (sized : List (String × Decimal)) : List StrategyContribution :=
  let totals : Dict String Decimal :=
    sized.foldl (fun d s => d.set s.1 ((d.get? s.1).getD 0 + s.2)) Dict.empty
  (totals.entries.insertionSort fun a b => a.1 ≤ b.1).map fun e => ⟨e.1, e.2⟩

def netOf (contributions : List StrategyContribution) : Decimal :=
  (contributions.map (·.quantity)).sum

/-! ## Splitting an amount -/

/-- Significant digits of `_SPLIT_CONTEXT`. -/
def splitPrecision : ℕ := 28

/-- `x` as the split's context rounds the result of an operation. -/
def inSplit (x : Decimal) : Decimal := roundSig 10 splitPrecision x

/-- A share, before it is checked to fit the context: `amount * quantity / net`
    rounded to `places` decimals. -/
def roundedShare (places : ℕ) (amount net quantity : Decimal) : Decimal :=
  quantize places (inSplit (inSplit (amount * quantity) / net))

def equalShare (places : ℕ) (amount : Decimal) (count : ℕ) : Decimal :=
  quantize places (inSplit (amount / count))

/-- Whether a share of `places` decimals fits the context's digits; `quantize`
    raises where it does not. -/
def FitsSplit (places : ℕ) (share : Decimal) : Prop := |share| < 10 ^ (splitPrecision - places)

instance (places : ℕ) (share : Decimal) : Decidable (FitsSplit places share) :=
  inferInstanceAs (Decidable (_ < _))

/-- `split_by_contribution`: every share but the last rounded, the last what remains;
    `none` where a share does not fit. -/
def splitByContribution (amount : Decimal) (contributions : List StrategyContribution)
    (places : ℕ) : Option (List (String × Decimal)) :=
  match contributions.getLast? with
  | none => some []
  | some last =>
    let heads := contributions.dropLast
    let net := netOf contributions
    if net = 0 then
      let share := equalShare places amount contributions.length
      if FitsSplit places share then
        some (heads.map (fun c => (c.strategyId, share)) ++
          [(last.strategyId, amount - inSplit (share * heads.length))])
      else none
    else
      let parts := heads.map fun c => (c.strategyId, roundedShare places amount net c.quantity)
      if ∀ part ∈ parts, FitsSplit places part.2 then
        some (parts ++ [(last.strategyId, amount - (parts.map Prod.snd).sum)])
      else none

/-- What rounding one share leaves behind: the share less its exact value. -/
def shareResidue (places : ℕ) (amount net quantity : Decimal) : Decimal :=
  roundedShare places amount net quantity - amount * quantity / net

theorem getD_foldl_totals (sized : List (String × Decimal)) (d : Dict String Decimal)
    (strategyId : String) :
    ((sized.foldl (fun d s => d.set s.1 ((d.get? s.1).getD 0 + s.2)) d).get? strategyId).getD 0 =
      (d.get? strategyId).getD 0 + ((sized.filter (·.1 = strategyId)).map Prod.snd).sum := by
  induction sized generalizing d with
  | nil => simp
  | cons s sized ih =>
    rw [List.foldl_cons, ih, Dict.get?_set]
    by_cases hs : s.1 = strategyId
    · subst hs
      simp [add_assoc]
    · simp [hs, Ne.symm hs]

theorem contributionsFrom_nodup (sized : List (String × Decimal)) :
    ((contributionsFrom sized).map (·.strategyId)).Nodup := by
  rw [contributionsFrom, List.map_map]
  exact ((List.perm_insertionSort _ _).map Prod.fst).nodup_iff.mpr (Dict.nodup _)

variable {sized : List (String × Decimal)} {c : StrategyContribution}

theorem contributionsFrom_quantity (hc : c ∈ contributionsFrom sized) :
    c.quantity = ((sized.filter (·.1 = c.strategyId)).map Prod.snd).sum := by
  rw [contributionsFrom, List.mem_map] at hc
  obtain ⟨e, he, rfl⟩ := hc
  have hget := (Dict.get?_eq_some _).mpr ((List.perm_insertionSort _ _).mem_iff.mp he)
  have htotal := getD_foldl_totals sized Dict.empty e.1
  rw [hget] at htotal
  simpa using htotal

theorem mem_keys_totals (sized : List (String × Decimal)) (d : Dict String Decimal)
    {strategyId : String}
    (h : strategyId ∈
      (sized.foldl (fun d s => d.set s.1 ((d.get? s.1).getD 0 + s.2)) d).keys) :
    strategyId ∈ d.keys ∨ strategyId ∈ sized.map Prod.fst := by
  induction sized generalizing d with
  | nil => exact Or.inl h
  | cons s sized ih =>
    rw [List.foldl_cons] at h
    rcases ih _ h with hd | hs
    · rcases (Dict.mem_keys_set d).mp hd with rfl | hd
      · exact Or.inr (by simp)
      · exact Or.inl hd
    · exact Or.inr (by simp [hs])

theorem contributionsFrom_mem (hc : c ∈ contributionsFrom sized) :
    c.strategyId ∈ sized.map Prod.fst := by
  rw [contributionsFrom, List.mem_map] at hc
  obtain ⟨e, he, rfl⟩ := hc
  have hkey : e.1 ∈ (sized.foldl (fun d s => d.set s.1 ((d.get? s.1).getD 0 + s.2))
      (Dict.empty : Dict String Decimal)).keys :=
    List.mem_map_of_mem ((List.perm_insertionSort _ _).mem_iff.mp he)
  simpa using mem_keys_totals sized Dict.empty hkey

variable {amount : Decimal} {places : ℕ} {parts : List (String × Decimal)}

theorem split_ids {contributions : List StrategyContribution}
    (h : splitByContribution amount contributions places = some parts) :
    parts.map Prod.fst = contributions.map (·.strategyId) := by
  unfold splitByContribution at h
  cases hlast : contributions.getLast? with
  | none =>
    rw [hlast] at h
    rw [List.getLast?_eq_none_iff.mp hlast, ← Option.some.inj h]
    rfl
  | some last =>
    rw [hlast] at h
    have hids : contributions.map (·.strategyId) =
        contributions.dropLast.map (·.strategyId) ++ [last.strategyId] := by
      conv_lhs => rw [← List.dropLast_append_getLast? last hlast]
      simp
    rw [hids]
    dsimp only at h
    split_ifs at h with hflat hfits hfits
    · rw [← Option.some.inj h]
      simp [Function.comp_def]
    · rw [← Option.some.inj h]
      simp [Function.comp_def]

/-- A split of a net that is not flat, written out. -/
theorem split_eq_some {heads : List StrategyContribution} {last : StrategyContribution}
    (hnet : netOf (heads ++ [last]) ≠ 0) :
    splitByContribution amount (heads ++ [last]) places = some parts ↔
      (∀ c ∈ heads,
        FitsSplit places (roundedShare places amount (netOf (heads ++ [last])) c.quantity)) ∧
      parts = heads.map (fun c => (c.strategyId,
          roundedShare places amount (netOf (heads ++ [last])) c.quantity)) ++
        [(last.strategyId, amount - (heads.map fun c =>
          roundedShare places amount (netOf (heads ++ [last])) c.quantity).sum)] := by
  unfold splitByContribution
  rw [List.getLast?_append, List.getLast?_singleton, Option.some_or]
  dsimp only
  rw [if_neg hnet, List.dropLast_concat]
  simp only [List.forall_mem_map, List.map_map, Function.comp_def, Option.ite_none_right_eq_some,
    Option.some.injEq]
  exact and_congr_right fun _ => eq_comm

end AlphaLab
