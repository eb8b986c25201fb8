/-
  Price-time queues over whole runs of observations.

  * `QueueModel.turns` folds `advance` over what a feed showed after an order joined;
  * `Carried` says that sizes and prints are of one decimal place and fit the context;
    `advance_shrinks`, `advance_bounded`: what one observation does to the queue and to the order;
  * `queue_moves_forward`: over carried observations the queue ahead only falls, and what may
    fill of the order is no more than was printed against it, and no less than that beyond the
    queue it joined behind.
-/
import AlphaLab.Simulation.AuctionTiers

namespace AlphaLab

open Rounding

/-! ## Runs of observations -/

def QueueModel.turns (model : QueueModel) (side : Side) :
    QueuePosition → List QueueObservation → List QueueTurn
  | _, [] => []
  | position, seen :: l =>
    let turn := model.advance position side seen
    turn :: model.turns side turn.position l

/-- No quote lowers what is ahead of an order as it advances. -/
def QueueModel.Unlowered (model : QueueModel) (side : Side) :
    QueuePosition → List QueueObservation → Prop
  | _, [] => True
  | position, seen :: l =>
    seen.shownAhead side position.limitPrice position.ahead = position.ahead ∧
      model.Unlowered side (model.advance position side seen).position l

namespace QueueObservation

variable (seen : QueueObservation)

def opposing (side : Side) (limit : Decimal) (countUnsignedTrades : Bool) : Decimal :=
  match seen.print with
  | some (price, some printed) =>
    if price = limit ∧ seen.consumes side countUnsignedTrades then printed else 0
  | _ => 0

def quantities : List Decimal :=
  [seen.bid, seen.ask, seen.print].filterMap fun shown => shown.bind Prod.snd

/-- The quantities shown are not negative, whole numbers of one decimal place, and need no digit
    that the context does not have. -/
def Carried (place : ℤ) : Prop :=
  ∀ q ∈ seen.quantities, 0 ≤ q ∧ OnGrid (placeUnit place) q ∧
    q < placeUnit (place + accountingPrecision)

end QueueObservation

/-- A quantity ahead that is of a decimal place and fits the context, where it is known. -/
def QueuePosition.Carried (place : ℤ) (position : QueuePosition) : Prop :=
  ∀ q ∈ position.ahead, 0 ≤ q ∧ OnGrid (placeUnit place) q ∧
    q < placeUnit (place + accountingPrecision)

def QueuePosition.Shrinks (before after : QueuePosition) : Prop :=
  ∀ q ∈ before.ahead, ∃ q' ∈ after.ahead, 0 ≤ q' ∧ q' ≤ q

theorem QueuePosition.Shrinks.trans {p q r : QueuePosition} (hpq : p.Shrinks q)
    (hqr : q.Shrinks r) : p.Shrinks r := by
  intro a ha
  obtain ⟨b, hb, -, hba⟩ := hpq a ha
  obtain ⟨c, hc, hnonneg, hcb⟩ := hqr b hb
  exact ⟨c, hc, hnonneg, hcb.trans hba⟩

/-! ## One observation -/

section
variable {seen : QueueObservation} {side : Side} {limit : Decimal} {place : ℤ} {count : Bool}
  {ahead : Option Decimal} {position : QueuePosition}

theorem placeUnit_pos (place : ℤ) : 0 < placeUnit place := zpow_pos (by norm_num) _

theorem subtract_carried {x y : Decimal} (hx : OnGrid (placeUnit place) x)
    (hsmall : x < placeUnit (place + accountingPrecision)) (hy : OnGrid (placeUnit place) y)
    (hnonneg : 0 ≤ y) (hle : y ≤ x) : subtract x y = x - y :=
  inContext_of_place (hx.sub hy) (sub_nonneg.mpr hle) (by linarith)

theorem opposing_carried (side : Side) (limit : Decimal) (count : Bool) (h : seen.Carried place) :
    0 ≤ seen.opposing side limit count ∧
      OnGrid (placeUnit place) (seen.opposing side limit count) ∧
      seen.opposing side limit count < placeUnit (place + accountingPrecision) := by
  unfold QueueObservation.opposing
  split
  · rename_i price printed hprint
    split_ifs
    · exact h printed (List.mem_filterMap.mpr ⟨seen.print, by simp, by rw [hprint]; rfl⟩)
    · exact ⟨le_rfl, onGrid_zero _, placeUnit_pos _⟩
  · exact ⟨le_rfl, onGrid_zero _, placeUnit_pos _⟩

theorem sameSide_carried (h : seen.Carried place) {best size : Decimal}
    (hside : seen.sameSide side = some (best, some size)) :
    0 ≤ size ∧ OnGrid (placeUnit place) size ∧ size < placeUnit (place + accountingPrecision) := by
  refine h size (List.mem_filterMap.mpr ⟨seen.sameSide side, ?_, by rw [hside]; rfl⟩)
  cases side <;> simp [QueueObservation.sameSide]

/-- **What a quote leaves ahead of an order**: it is carried, and no more than was known. -/
theorem shownAhead_carried (side : Side) (h : seen.Carried place)
    (hahead : QueuePosition.Carried place ⟨limit, ahead⟩) :
    QueuePosition.Carried place ⟨limit, seen.shownAhead side limit ahead⟩ ∧
      QueuePosition.Shrinks ⟨limit, ahead⟩ ⟨limit, seen.shownAhead side limit ahead⟩ := by
  have hsame : QueuePosition.Shrinks ⟨limit, ahead⟩ ⟨limit, ahead⟩ := fun q hq =>
    ⟨q, hq, (hahead q hq).1, le_rfl⟩
  unfold QueueObservation.shownAhead
  split
  · exact ⟨hahead, hsame⟩
  · rename_i best size hside
    split_ifs with hbetter hbest
    · constructor
      · intro q hq
        obtain rfl := Option.some.inj hq
        exact ⟨le_rfl, onGrid_zero _, placeUnit_pos _⟩
      · exact fun q hq => ⟨0, rfl, le_rfl, (hahead q hq).1⟩
    · cases size with
      | none => exact ⟨hahead, hsame⟩
      | some size =>
        have hsize := sameSide_carried h hside
        cases ahead with
        | none =>
          refine ⟨fun q hq => ?_, fun q hq => nomatch hq⟩
          obtain rfl := Option.some.inj hq
          exact hsize
        | some known =>
          have hknown := hahead known rfl
          refine ⟨fun q hq => ?_, fun q hq => ⟨min known size, rfl, ?_, ?_⟩⟩
          · obtain rfl : min known size = q := Option.some.inj hq
            rcases min_choice known size with hmin | hmin
            · rwa [hmin]
            · rwa [hmin]
          · exact le_min hknown.1 hsize.1
          · obtain rfl := Option.some.inj hq
            exact min_le_left _ _
    · exact ⟨hahead, hsame⟩

/-- **What a print leaves of a known queue, and what it traded beyond.** -/
theorem printedBeyond_known (side : Side) (count : Bool) (h : seen.Carried place) {queued : Decimal}
    (hqueued : QueuePosition.Carried place ⟨limit, some queued⟩) :
    (seen.printedBeyond side limit count (some queued)).1 =
        some (max 0 (queued - seen.opposing side limit count)) ∧
      ((seen.printedBeyond side limit count (some queued)).2).getD 0 =
        max 0 (seen.opposing side limit count - queued) := by
  have hopposing := opposing_carried side limit count h
  obtain ⟨hnonneg, hgrid, hsmall⟩ := hqueued queued rfl
  unfold QueueObservation.opposing at hopposing ⊢
  unfold QueueObservation.printedBeyond
  cases hprint : seen.print with
  | none => simp [hnonneg]
  | some print =>
    obtain ⟨price, printed⟩ := print
    rw [hprint] at hopposing
    cases printed with
    | none => simp [hnonneg]
    | some printed =>
      dsimp only at hopposing ⊢
      split_ifs at hopposing ⊢ with hlimit hbeyond
      · have hexact := subtract_carried hopposing.2.1 hopposing.2.2 hgrid hnonneg hbeyond.le
        constructor
        · rw [max_eq_left (by linarith)]
        · rw [Option.getD_some, hexact, max_eq_right (by linarith)]
      · have hbehind := not_lt.mp hbeyond
        have hexact := subtract_carried hgrid hsmall hopposing.2.1 hopposing.1 hbehind
        constructor
        · rw [hexact, max_eq_right (by linarith)]
        · rw [Option.getD_some, max_eq_left (by linarith)]
      · simp [hnonneg]

theorem printedBeyond_unknown : seen.printedBeyond side limit count none = (none, none) := by
  unfold QueueObservation.printedBeyond
  split
  · contradiction
  · rfl

theorem advance_shrinks (side : Side) (count : Bool) (h : seen.Carried place)
    (hahead : position.Carried place) :
    let turn := (priceTimeQueue count).advance position side seen
    turn.position.limitPrice = position.limitPrice ∧ turn.position.Carried place ∧
      position.Shrinks turn.position := by
  obtain ⟨limit, ahead⟩ := position
  obtain ⟨hcarried, hshown⟩ := shownAhead_carried side h hahead
  unfold priceTimeQueue
  dsimp only
  generalize seen.shownAhead side limit ahead = shown at hcarried hshown
  have hzero : QueuePosition.Carried place ⟨limit, some 0⟩ ∧
      QueuePosition.Shrinks ⟨limit, ahead⟩ ⟨limit, some 0⟩ := by
    constructor
    · intro q hq
      obtain rfl := Option.some.inj hq
      exact ⟨le_rfl, onGrid_zero _, placeUnit_pos _⟩
    · exact fun q hq => ⟨0, rfl, le_rfl, (hahead q hq).1⟩
  have hprinted : QueuePosition.Carried place
        ⟨limit, (seen.printedBeyond side limit count shown).1⟩ ∧
      QueuePosition.Shrinks ⟨limit, ahead⟩
        ⟨limit, (seen.printedBeyond side limit count shown).1⟩ := by
    cases shown with
    | none =>
      rw [printedBeyond_unknown]
      exact ⟨hcarried, hshown⟩
    | some queued =>
      obtain ⟨hnonneg, hgrid, hsmall⟩ := hcarried queued rfl
      obtain ⟨hpos, hopposing, -⟩ := opposing_carried side limit count h
      rw [(printedBeyond_known _ _ h hcarried).1]
      refine ⟨fun q hq => ?_, hshown.trans fun q hq => ⟨_, rfl, le_max_left _ _, ?_⟩⟩
      · obtain rfl := Option.some.inj hq
        rcases max_choice 0 (queued - seen.opposing side limit count) with hmax | hmax
        · rw [hmax]
          exact ⟨le_rfl, onGrid_zero _, placeUnit_pos _⟩
        · rw [hmax]
          exact ⟨max_eq_right_iff.mp hmax, hgrid.sub hopposing, by linarith⟩
      · obtain rfl := Option.some.inj hq
        exact max_le hnonneg (by linarith)
  split_ifs
  · exact ⟨rfl, hzero⟩
  · exact ⟨rfl, hprinted⟩
  · exact ⟨rfl, hprinted⟩
  · exact ⟨rfl, hprinted⟩

/-- **A bounded turn behind a known queue**: the prints against the order take what is shown
    ahead of it first, and what they are beyond it may fill. -/
theorem advance_bounded (h : seen.Carried place) (hahead : position.Carried place)
    (hbounded : ((priceTimeQueue count).advance position side seen).eligible.isSome)
    {shown : Decimal}
    (hshown : seen.shownAhead side position.limitPrice position.ahead = some shown) :
    let turn := (priceTimeQueue count).advance position side seen
    let printed := seen.opposing side position.limitPrice count
    turn.position.ahead = some (max 0 (shown - printed)) ∧
      turn.eligible = some (max 0 (printed - shown)) := by
  obtain ⟨limit, ahead⟩ := position
  have hcarried := (shownAhead_carried side h hahead).1
  dsimp only at hshown hcarried
  rw [hshown] at hcarried
  obtain ⟨hleft, hbeyond⟩ := printedBeyond_known side count h hcarried
  unfold priceTimeQueue at hbounded ⊢
  dsimp only at hbounded ⊢
  rw [hshown] at hbounded ⊢
  split_ifs at hbounded ⊢ with hthrough hany htouched
  · cases hbounded
  · obtain ⟨beyond, hsome, -⟩ := (Option.any_eq_true _ _).mp hany
    rw [hsome, Option.getD_some] at hbeyond
    exact ⟨hleft, by rw [hsome, hbeyond]⟩
  · cases hbounded
  · refine ⟨hleft, ?_⟩
    rw [← hbeyond]
    cases hsome : (seen.printedBeyond side limit count (some shown)).2 with
    | none => rfl
    | some beyond =>
      rw [hsome, Option.getD_some] at hbeyond
      have hnone : ¬ 0 < beyond := by simpa [hsome] using hany
      have hzero : beyond = 0 := le_antisymm (not_lt.mp hnone) (hbeyond ▸ le_max_left _ _)
      rw [Option.getD_some, hzero]

theorem advance_unknown
    (hbounded : ((priceTimeQueue count).advance position side seen).eligible.isSome)
    (hshown : seen.shownAhead side position.limitPrice position.ahead = none) :
    ((priceTimeQueue count).advance position side seen).eligible = some 0 := by
  unfold priceTimeQueue at hbounded ⊢
  dsimp only at hbounded ⊢
  rw [hshown, printedBeyond_unknown] at hbounded ⊢
  split_ifs at hbounded ⊢ <;> simp_all

end

/-! ## Whole runs -/

section
variable {side : Side} {place : ℤ} {count : Bool} {position : QueuePosition}
  {l : List QueueObservation}

theorem turns_carried (h : ∀ seen ∈ l, seen.Carried place) (hahead : position.Carried place) :
    ∀ p ∈ position :: ((priceTimeQueue count).turns side position l).map (·.position),
      p.Carried place := by
  induction l generalizing position with
  | nil =>
    intro p hp
    exact List.mem_singleton.mp hp ▸ hahead
  | cons seen l ih =>
    intro p hp
    rcases List.mem_cons.mp hp with rfl | hp
    · exact hahead
    · exact ih (fun s hs => h s (by simp [hs])) (advance_shrinks _ _ (h seen (by simp)) hahead).2.1 p hp

/-- **Over a run a known queue only falls.** -/
theorem turns_shrink (side : Side) (count : Bool) (h : ∀ seen ∈ l, seen.Carried place)
    (hahead : position.Carried place) :
    (position :: ((priceTimeQueue count).turns side position l).map (·.position)).Pairwise
      QueuePosition.Shrinks := by
  induction l generalizing position with
  | nil => exact List.pairwise_singleton _ _
  | cons seen l ih =>
    obtain ⟨-, hcarried, hfirst⟩ := advance_shrinks side count (h seen (by simp)) hahead
    have hrest := ih (fun s hs => h s (by simp [hs])) hcarried
    refine List.pairwise_cons.mpr ⟨?_, hrest⟩
    intro later hlater
    rcases List.mem_cons.mp hlater with rfl | hlater
    · exact hfirst
    · exact hfirst.trans ((List.pairwise_cons.mp hrest).1 later hlater)

def mayFill (turns : List QueueTurn) : Decimal := (turns.map fun t => t.eligible.getD 0).sum

def printedAt (side : Side) (limit : Decimal) (count : Bool) (l : List QueueObservation) :
    Decimal :=
  (l.map fun seen => seen.opposing side limit count).sum

/-- What a run of bounded turns may fill is no more than was printed against the order beyond
    a queue that is known, and is just that where no quote lowers it. -/
theorem turns_fill (h : ∀ seen ∈ l, seen.Carried place) (hahead : position.Carried place)
    (hbounded : ∀ t ∈ (priceTimeQueue count).turns side position l, t.eligible.isSome) :
    0 ≤ printedAt side position.limitPrice count l ∧
      mayFill ((priceTimeQueue count).turns side position l) ≤
        printedAt side position.limitPrice count l ∧
      (∀ q ∈ position.ahead, (priceTimeQueue count).Unlowered side position l →
        mayFill ((priceTimeQueue count).turns side position l) =
          max 0 (printedAt side position.limitPrice count l - q)) := by
  induction l generalizing position with
  | nil =>
    refine ⟨le_rfl, le_rfl, fun q hq _ => ?_⟩
    have hnonneg := (hahead q hq).1
    simp [mayFill, printedAt, QueueModel.turns, hnonneg]
  | cons seen l ih =>
    obtain ⟨hlimit, hcarried, -⟩ := advance_shrinks side count (h seen (by simp)) hahead
    have hopposing := (opposing_carried side position.limitPrice count (h seen (by simp))).1
    have hfirst := hbounded _ (List.mem_cons_self ..)
    have hrest := ih (fun s hs => h s (by simp [hs])) hcarried fun t ht =>
      hbounded t (List.mem_cons_of_mem _ ht)
    rw [hlimit] at hrest
    have hturns : mayFill ((priceTimeQueue count).turns side position (seen :: l)) =
        (((priceTimeQueue count).advance position side seen).eligible.getD 0) +
          mayFill ((priceTimeQueue count).turns side
            ((priceTimeQueue count).advance position side seen).position l) := rfl
    have hprinted : printedAt side position.limitPrice count (seen :: l) =
        seen.opposing side position.limitPrice count +
          printedAt side position.limitPrice count l := rfl
    rw [hturns, hprinted]
    cases hshown : seen.shownAhead side position.limitPrice position.ahead with
    | none =>
      rw [advance_unknown hfirst hshown, Option.getD_some, zero_add]
      refine ⟨add_nonneg hopposing hrest.1, hrest.2.1.trans (by linarith), ?_⟩
      intro q hq hunlowered
      rw [hunlowered.1, Option.mem_def.mp hq] at hshown
      cases hshown
    | some shown =>
      obtain ⟨hleft, heligible⟩ := advance_bounded (h seen (by simp)) hahead hfirst hshown
      have hshownNonneg := ((shownAhead_carried _ (h seen (by simp)) hahead).1 shown hshown).1
      rw [heligible, Option.getD_some]
      refine ⟨add_nonneg hopposing hrest.1, ?_, fun q hq hunlowered => ?_⟩
      · have hmost : max 0 (seen.opposing side position.limitPrice count - shown) ≤
            seen.opposing side position.limitPrice count := max_le hopposing (by linarith)
        linarith [hrest.2.1]
      · obtain rfl : shown = q := by
          rw [hunlowered.1, Option.mem_def.mp hq] at hshown
          exact (Option.some.inj hshown).symm
        rw [hrest.2.2 _ hleft hunlowered.2]
        have hlater := hrest.1
        generalize seen.opposing side position.limitPrice count = printed at hopposing ⊢
        generalize printedAt side position.limitPrice count l = later at hlater ⊢
        rcases le_total shown printed with hle | hle
        · rw [max_eq_right (by linarith : 0 ≤ printed - shown),
            max_eq_left (by linarith : shown - printed ≤ 0), sub_zero, max_eq_right hlater,
            max_eq_right (by linarith : 0 ≤ printed + later - shown)]
          ring
        · rw [max_eq_left (by linarith : printed - shown ≤ 0),
            max_eq_right (by linarith : 0 ≤ shown - printed), zero_add]
          congr 1
          ring

end

theorem join_carried {first : QueueObservation} {side : Side} {limit : Decimal} {place : ℤ}
    {count : Bool} (h : first.Carried place) :
    ((priceTimeQueue count).join side limit first).Carried place := by
  have hzero : QueuePosition.Carried place ⟨limit, some 0⟩ := by
    intro q hq
    obtain rfl := Option.some.inj hq
    exact ⟨le_rfl, onGrid_zero _, placeUnit_pos _⟩
  unfold priceTimeQueue
  dsimp only
  split
  · exact fun q hq => nomatch hq
  · rename_i best size hside
    split_ifs
    · exact hzero
    · intro q hq
      obtain rfl : size = some q := hq
      exact sameSide_carried h hside
    · exact fun q hq => nomatch hq

/-- **The queue only moves forward, and prints are counted once**: over every run of carried
    observations the queue ahead of an order only falls; where no turn is unbounded, what may
    fill of it is no more than was printed at its limit against it, and just what was beyond the
    queue it joined behind where no quote lowered that. -/
theorem queue_moves_forward (count : Bool) (side : Side) (limit : Decimal)
    (first : QueueObservation) (l : List QueueObservation) (place : ℤ)
    (h : ∀ seen ∈ first :: l, seen.Carried place) :
    let joined := (priceTimeQueue count).join side limit first
    let turns := (priceTimeQueue count).turns side joined l
    (∀ p ∈ joined :: turns.map (·.position), ∀ q ∈ p.ahead, 0 ≤ q) ∧
      (joined :: turns.map (·.position)).Pairwise QueuePosition.Shrinks ∧
      ((∀ t ∈ turns, t.eligible.isSome) →
        mayFill turns ≤ printedAt side limit count l ∧
          ∀ q ∈ joined.ahead, (priceTimeQueue count).Unlowered side joined l →
            mayFill turns = max 0 (printedAt side limit count l - q)) := by
  intro joined turns
  have hjoined : joined.Carried place := join_carried (h first (by simp))
  have hrest : ∀ seen ∈ l, seen.Carried place := fun s hs => h s (by simp [hs])
  have hlimit : joined.limitPrice = limit := by
    simp only [joined, priceTimeQueue]
    split
    · rfl
    · split_ifs <;> rfl
  have hshrink := turns_shrink side count hrest hjoined
  refine ⟨?_, hshrink, fun hbounded => ?_⟩
  · exact fun p hp q hq => (turns_carried hrest hjoined p hp q hq).1
  · have hfill := turns_fill hrest hjoined hbounded
    rw [hlimit] at hfill
    exact hfill.2

/-- An order behind five, through a print of three and one of four. -/
def twoPrints : List QueueObservation :=
  [{ print := some (10, some 3), aggressor := some .sell },
    { print := some (10, some 4), aggressor := some .sell }]

theorem queue_moves_forward_five :
    let joined := (priceTimeQueue false).join .buy 10 { bid := some (10, some 5) }
    mayFill ((priceTimeQueue false).turns .buy joined twoPrints) = 2 := by
  have hcarried : ∀ seen ∈ ({ bid := some (10, some 5) } : QueueObservation) :: twoPrints,
      seen.Carried 0 := by
    simp only [twoPrints, QueueObservation.Carried, QueueObservation.quantities]
    decide +kernel
  obtain ⟨-, -, hfill⟩ := queue_moves_forward false .buy 10 { bid := some (10, some 5) } twoPrints
    0 hcarried
  obtain ⟨-, hexact⟩ := hfill (by decide +kernel)
  refine (hexact 5 rfl ⟨rfl, rfl, trivial⟩).trans ?_
  decide +kernel

/-- **A print of more digits than the context has** fills an order of more than was printed. -/
theorem long_print_fills_more :
    let joined := (priceTimeQueue false).join .buy 10 { bid := some (10, some 1) }
    let l : List QueueObservation :=
      [{ print := some (10, some (10 ^ 34 + 7)), aggressor := some .sell }]
    (∀ t ∈ (priceTimeQueue false).turns .buy joined l, t.eligible.isSome) ∧
      ¬ mayFill ((priceTimeQueue false).turns .buy joined l) ≤ printedAt .buy 10 false l := by
  decide +kernel

end AlphaLab
