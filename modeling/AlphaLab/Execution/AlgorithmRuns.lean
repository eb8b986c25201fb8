/-
  Runs of an execution algorithm (`execution/algorithms.py`): what is conserved, and what a
  release may take.

  * `Counted` is the invariant that ties the counters to the children and the status to them, `Gridded` that every
    quantity is a number of units;
  * `conserves_its_parent`: in every run of a schedule or a participation the counters are
    the children's, the parent is conserved, a release stays within the target and children
    are whole increments.
-/
import AlphaLab.Execution.Schedules

namespace AlphaLab

open Fallible Rounding

inductive AlgorithmCall where
  | release (now : Instant) (volumes : List IntervalVolume)
  | execution (childId executionId : String) (quantity : Decimal) (timestamp : Instant)
  | outcome (childId : String) (outcome : OrderStatus) (timestamp : Instant)
  | cancel (reason : String)

def AlgorithmState.step (support : AlgorithmSupport) (a : AlgorithmState) :
    AlgorithmCall → Except AlgorithmRefusal AlgorithmState
  | .release now volumes => (a.releaseChildren support now volumes).map (·.1)
  | .execution childId executionId quantity timestamp =>
    a.recordChildExecution childId executionId quantity timestamp
  | .outcome childId outcome timestamp => a.recordChildOutcome childId outcome timestamp
  | .cancel reason => pure (a.cancelAlgorithm reason).1

def AlgorithmCall.OnUnit (u : Decimal) : AlgorithmCall → Prop
  | .execution _ _ quantity _ => OnGrid u quantity
  | .release .. | .outcome .. | .cancel _ => True

/-- A release leaves what was released ever short of 33 digits. -/
def AlgorithmCall.Roomy (k : ℕ) (a : AlgorithmState) : AlgorithmCall → Prop
  | .release .. => a.released + a.parent.quantity < 10 ^ 33 * quantum k
  | .execution .. | .outcome .. | .cancel _ => True

/-- **A call whose sums fit the accounting context**, with `k` decimals. -/
def AlgorithmCall.Written (k : ℕ) (a : AlgorithmState) (call : AlgorithmCall) : Prop :=
  call.OnUnit (quantum k) ∧ call.Roomy k a

def ChildProgress.unfilled (p : ChildProgress) : Decimal :=
  if p.outcome.isSome then p.child.quantity - p.filled else 0

def ChildProgress.openQuantity (p : ChildProgress) : Decimal :=
  if p.outcome.isSome then 0 else p.child.quantity - p.filled

theorem ChildProgress.split (p : ChildProgress) :
    p.child.quantity = p.filled + (p.unfilled + p.openQuantity) := by
  rw [unfilled, openQuantity]
  split_ifs <;> ring

/-- A child is of something, and filled no further than that; one that is open is open for
    something. -/
structure ChildProgress.Sound (p : ChildProgress) : Prop where
  positive : 0 < p.child.quantity
  nonneg : 0 ≤ p.filled
  within : p.filled ≤ p.child.quantity
  opened : p.outcome = none → p.filled < p.child.quantity

def ExecutionAlgorithm.Scheduled : ExecutionAlgorithm → Prop
  | .twap .. | .vwap .. | .participation _ => True
  | .slicing .. | .sliceCount .. | .iceberg .. => False

namespace AlgorithmState

/-- **The counters are the children's, and the parent is conserved.** -/
structure Conserved (a : AlgorithmState) : Prop where
  released : a.released = a.children.sum (·.child.quantity)
  filled : a.filled = a.children.sum (·.filled)
  returned : a.returned = a.children.sum ChildProgress.unfilled
  working : a.working = a.released - a.filled - a.returned
  working_open : a.working = a.children.sum ChildProgress.openQuantity
  working_nonneg : 0 ≤ a.working
  parent : a.filled + a.working + a.unreleased = a.parent.quantity
  unreleased_nonneg : 0 ≤ a.unreleased
  completed : a.status = .completed ↔ a.filled = a.parent.quantity

def planned (a : AlgorithmState) (now : Instant) : Decimal :=
  ((a.schedule.map (·.targetAt now)).getD (0, none)).1

/-- What an algorithm may have filled and working at an instant: its schedule's target, or
    its rate of the volume observed. -/
def Allowed (a : AlgorithmState) (now : Instant) (quantity : Decimal) : Prop :=
  match a.algorithm with
  | .twap .. | .vwap .. => quantity ≤ a.planned now
  | .participation p => quantity ≤ p.rate * a.observedVolume
  | .slicing .. | .sliceCount .. | .iceberg .. => True

def Completes (a : AlgorithmState) (now : Instant) : Prop :=
  a.atEnd = some .completeAtEnd ∧ a.terms.end ≤ now

structure Gridded (u : Decimal) (a : AlgorithmState) : Prop where
  released : OnGrid u a.released
  filled : OnGrid u a.filled
  returned : OnGrid u a.returned
  children : ∀ k p, a.children.get? k = some p → OnGrid u p.child.quantity ∧ OnGrid u p.filled

/-- The name of the child after `index` others. -/
def childName (a : AlgorithmState) (index : ℕ) : String :=
  a.parent.orderId ++ "/" ++ toString (index + 1)

/-- What a run starts from: a parent of whole increments, whose targets and sizes are too. -/
structure Prepared (k : ℕ) (a : AlgorithmState) : Prop where
  parent : Fits k a.parent.quantity
  positive : 0 < a.parent.quantity
  increment : Whole k a.terms.quantityIncrement
  whole : OnGrid a.terms.quantityIncrement a.parent.quantity
  targets : ∀ schedule, a.schedule = some schedule → ∀ slice ∈ schedule.slices,
    WholeTarget a.terms.quantityIncrement a.parent.quantity slice.target
  sizes : ∀ p, a.algorithm = .participation p → ∀ high ∈ p.maxChildQuantity,
    OnGrid a.terms.quantityIncrement high

structure Tied (k : ℕ) (a : AlgorithmState) : Prop where
  prepared : a.Prepared k
  gridded : a.Gridded (quantum k)
  fits : a.released < 10 ^ 33 * quantum k
  released : a.released = a.children.sum (·.child.quantity)
  filled : a.filled = a.children.sum (·.filled)
  returned : a.returned = a.children.sum ChildProgress.unfilled
  within : a.released ≤ a.parent.quantity + a.returned
  sound : ∀ k p, a.children.get? k = some p → p.Sound
  named : a.children.values.map ChildProgress.childId =
    (List.range a.children.values.length).map a.childName
  observed : 0 ≤ a.observedVolume

/-- **The invariant of a run**: its counters tied to its children, and its status to them. -/
structure Counted (k : ℕ) (a : AlgorithmState) : Prop extends a.Tied k where
  completed : a.status = .completed ↔ a.filled = a.parent.quantity

section
variable {k : ℕ} {a b : AlgorithmState}

theorem Tied.open_eq (h : a.Tied k) :
    a.released - a.filled - a.returned = a.children.sum ChildProgress.openQuantity := by
  have hsplit : a.children.sum (·.child.quantity) = a.children.sum (·.filled) +
      (a.children.sum ChildProgress.unfilled + a.children.sum ChildProgress.openQuantity) := by
    rw [← Register.sum_add, ← Register.sum_add]
    exact Register.sum_congr _ fun _ p _ => p.split
  rw [h.released, h.filled, h.returned, hsplit]
  ring

theorem Tied.nonneg (h : a.Tied k) :
    0 ≤ a.filled ∧ 0 ≤ a.returned ∧ 0 ≤ a.released - a.filled - a.returned := by
  refine ⟨?_, ?_, ?_⟩
  · rw [h.filled]
    exact Register.sum_nonneg _ fun id p hp => (h.sound id p hp).nonneg
  · rw [h.returned]
    refine Register.sum_nonneg _ fun id p hp => ?_
    rw [ChildProgress.unfilled]
    split_ifs
    · exact sub_nonneg.mpr (h.sound id p hp).within
    · exact le_rfl
  · rw [h.open_eq]
    refine Register.sum_nonneg _ fun id p hp => ?_
    rw [ChildProgress.openQuantity]
    split_ifs
    · exact le_rfl
    · exact sub_nonneg.mpr (h.sound id p hp).within

theorem Tied.counters_fit (h : a.Tied k) :
    Fits k a.released ∧ Fits k a.filled ∧ Fits k a.returned := by
  obtain ⟨hf, hr, hw⟩ := h.nonneg
  have hreleased : Fits k a.released := by
    refine ⟨h.gridded.released, ?_⟩
    rw [abs_of_nonneg (by linarith)]
    exact h.fits
  exact ⟨hreleased, hreleased.of_le h.gridded.filled hf (by linarith),
    hreleased.of_le h.gridded.returned hr (by linarith)⟩

theorem Tied.working_eq (h : a.Tied k) :
    a.working = a.released - a.filled - a.returned ∧ Fits k a.working := by
  obtain ⟨hf, hr, hw⟩ := h.nonneg
  obtain ⟨hreleased, hfilled, hreturned⟩ := h.counters_fit
  have hfirst : Fits k (a.released - a.filled) := hreleased.sub hfilled (by linarith) hf
  have hworking : a.working = a.released - a.filled - a.returned := by
    rw [working, hreleased.subtract_eq hfilled, hfirst.subtract_eq hreturned]
  refine ⟨hworking, ?_⟩
  rw [hworking]
  exact hfirst.sub hreturned (by linarith) hr

theorem Tied.unreleased_eq (h : a.Tied k) :
    a.unreleased = a.parent.quantity - a.released + a.returned := by
  obtain ⟨hf, hr, hw⟩ := h.nonneg
  obtain ⟨hreleased, -, hreturned⟩ := h.counters_fit
  have hfirst : Fits k (a.parent.quantity - a.released) :=
    h.prepared.parent.sub hreleased h.prepared.positive.le (by linarith)
  rw [unreleased, h.prepared.parent.subtract_eq hreleased, hfirst.add_eq hreturned]

/-- **The invariant is the claim.** -/
theorem Counted.conserved (h : a.Counted k) : a.Conserved := by
  obtain ⟨hf, hr, hw⟩ := h.nonneg
  have hworking := h.working_eq.1
  have hunreleased := h.unreleased_eq
  exact {
    released := h.released
    filled := h.filled
    returned := h.returned
    working := hworking
    working_open := hworking.trans h.open_eq
    working_nonneg := by rw [hworking]; exact hw
    parent := by rw [hworking, hunreleased]; ring
    unreleased_nonneg := by rw [hunreleased]; linarith [h.within]
    completed := h.completed }

/-! ## What is due -/

theorem Prepared.planned (h : a.Prepared k) (now : Instant) :
    WholeTarget a.terms.quantityIncrement a.parent.quantity (a.planned now) := by
  rw [AlgorithmState.planned]
  cases hschedule : a.schedule with
  | none => exact WholeTarget.zero h.positive.le
  | some schedule =>
    simp only [Option.map_some, Option.getD_some, ExecutionSchedule.targetAt]
    split
    · exact WholeTarget.zero h.positive.le
    · rename_i current hcurrent
      have hmem := List.takeWhile_subset _ (List.mem_of_getLast? hcurrent)
      exact h.targets schedule hschedule current hmem

theorem Tied.participationTarget_eq (h : a.Tied k) (p : Participation) :
    a.participationTarget p = min
      (⌊divide (multiply p.rate a.observedVolume) a.terms.quantityIncrement⌋ *
        a.terms.quantityIncrement) a.parent.quantity := by
  set units := ⌊divide (multiply p.rate a.observedVolume) a.terms.quantityIncrement⌋ with hunits
  have hunits0 : 0 ≤ units :=
    Int.floor_nonneg.mpr (divide_nonneg (multiply_nonneg p.rated.1.le h.observed)
      a.terms.positive.le)
  have hdue : 0 ≤ (units : Decimal) * a.terms.quantityIncrement :=
    mul_nonneg (by exact_mod_cast hunits0) a.terms.positive.le
  rw [participationTarget, floorToIncrement, ← hunits, multiply]
  rcases le_total ((units : Decimal) * a.terms.quantityIncrement) a.parent.quantity with hle | hle
  · have hfits : Fits k (units * a.terms.quantityIncrement) :=
      h.prepared.parent.of_le (h.prepared.increment.int_mul units) hdue hle
    rw [hfits.exact]
  · -- beyond the parent the product may be rounded, but not below the parent
    have hrounded : a.parent.quantity ≤ inContext (units * a.terms.quantityIncrement) := by
      rw [← h.prepared.parent.exact]
      exact inContext_mono h.prepared.positive.le hle
    rw [min_eq_right hle, min_eq_right hrounded]

theorem Tied.participationTarget (h : a.Tied k) (p : Participation) :
    WholeTarget a.terms.quantityIncrement a.parent.quantity (a.participationTarget p) := by
  have hunits0 : 0 ≤ ⌊divide (multiply p.rate a.observedVolume) a.terms.quantityIncrement⌋ :=
    Int.floor_nonneg.mpr (divide_nonneg (multiply_nonneg p.rated.1.le h.observed)
      a.terms.positive.le)
  rw [h.participationTarget_eq p]
  refine ⟨?_, le_min ?_ h.prepared.positive.le, min_le_right _ _⟩
  · rcases min_choice (⌊divide (multiply p.rate a.observedVolume) a.terms.quantityIncrement⌋ *
      a.terms.quantityIncrement) a.parent.quantity with hmin | hmin <;> rw [hmin]
    · exact ⟨_, rfl⟩
    · exact h.prepared.whole
  · exact mul_nonneg (by exact_mod_cast hunits0) a.terms.positive.le

theorem Tied.participationTarget_le (h : a.Tied k) (p : Participation)
    (hwhole : Whole k (p.rate * a.observedVolume)) :
    a.participationTarget p ≤ p.rate * a.observedVolume := by
  have hnonneg : 0 ≤ p.rate * a.observedVolume := mul_nonneg p.rated.1.le h.observed
  rw [h.participationTarget_eq p]
  rcases le_total a.parent.quantity (p.rate * a.observedVolume) with hle | hle
  · exact (min_le_right _ _).trans hle
  · have hfits : Fits k (p.rate * a.observedVolume) := h.prepared.parent.of_le hwhole hnonneg hle
    refine (min_le_left _ _).trans ?_
    have hproduct : multiply p.rate a.observedVolume = p.rate * a.observedVolume := hfits.exact
    rw [hproduct]
    exact mul_le_of_le_divide hfits hnonneg h.prepared.increment a.terms.positive
      (Int.floor_le _)

theorem Tied.topUp_eq (h : a.Tied k) {target : Decimal}
    (ht : WholeTarget a.terms.quantityIncrement a.parent.quantity target) :
    a.topUp target = min (target - a.filled - a.working)
      (a.parent.quantity - a.released + a.returned) := by
  obtain ⟨hf, -, -⟩ := h.nonneg
  obtain ⟨-, hfilled, -⟩ := h.counters_fit
  have htarget := ht.fits h.prepared.parent h.prepared.increment
  rw [topUp, h.unreleased_eq, htarget.subtract_eq hfilled,
    (htarget.sub hfilled ht.nonneg hf).subtract_eq h.working_eq.2]

/-- A release within a target: of units, no more than may be released, and not past it. -/
structure Within (a : AlgorithmState) (u target quantity : Decimal) : Prop where
  units : OnGrid u quantity
  released : quantity ≤ a.parent.quantity - a.released + a.returned
  target : a.filled + a.working + quantity ≤ target

variable {u : Decimal}

theorem Tied.topUp_within (h : a.Tied k) (hu : OnGrid u a.terms.quantityIncrement)
    (hg : a.Gridded u) {target : Decimal}
    (ht : WholeTarget a.terms.quantityIncrement a.parent.quantity target) :
    a.Within u target (a.topUp target) := by
  rw [h.topUp_eq ht]
  refine ⟨?_, min_le_right _ _, ?_⟩
  · rcases min_choice (target - a.filled - a.working)
      (a.parent.quantity - a.released + a.returned) with hmin | hmin <;> rw [hmin]
    · rw [h.working_eq.1]
      exact ((hu.trans ht.whole).sub hg.filled).sub ((hg.released.sub hg.filled).sub hg.returned)
    · exact ((hu.trans h.prepared.whole).sub hg.released).add hg.returned
  · linarith [min_le_left (target - a.filled - a.working)
      (a.parent.quantity - a.released + a.returned)]

def target (a : AlgorithmState) (now : Instant) : Decimal :=
  match a.algorithm with
  | .twap .. | .vwap .. => a.planned now
  | .participation p => a.participationTarget p
  | .slicing .. | .sliceCount .. | .iceberg .. => a.parent.quantity

variable {support : AlgorithmSupport} {now : Instant}

/-- **What is due**: units, no more than may be released, and within the target unless the
    run completes. -/
theorem Tied.due_within (h : a.Tied k) (hscheduled : a.algorithm.Scheduled)
    (hu : OnGrid u a.terms.quantityIncrement) (hg : a.Gridded u) (hpos : 0 < (a.due support now).1)
    :
    OnGrid u (a.due support now).1 ∧
      (a.due support now).1 ≤ a.parent.quantity - a.released + a.returned ∧
      (¬ a.Completes now → a.filled + a.working + (a.due support now).1 ≤ a.target now) := by
  have hschedule := h.topUp_within hu hg (h.prepared.planned now)
  cases halg : a.algorithm with
  | twap _ _ _ | vwap _ _ _ =>
    have htarget : a.target now = a.planned now := by rw [target, halg]
    have hdue : (a.due support now).1 =
        if now < a.terms.end then a.topUp (a.planned now) else 0 := by
      simp only [due, halg, AlgorithmState.planned]
    rw [hdue] at hpos ⊢
    rw [htarget]
    split_ifs at hpos ⊢ with hbefore
    · exact ⟨hschedule.units, hschedule.released, fun _ => hschedule.target⟩
    · exact absurd hpos (lt_irrefl _)
  | participation p =>
    have htarget : a.target now = a.participationTarget p := by rw [target, halg]
    have hdue : (a.due support now).1 = (a.participationRelease p now).1 := by
      simp only [due, halg]
    rw [hdue] at hpos ⊢
    rw [htarget]
    rw [participationRelease] at hpos ⊢
    by_cases hend : a.terms.end ≤ now
    · rw [if_pos hend] at hpos ⊢
      cases hatEnd : p.atEnd with
      | leaveUnfilled =>
        rw [hatEnd] at hpos
        exact absurd hpos (lt_irrefl _)
      | completeAtEnd =>
        -- everything left is sent
        have hcompletes : a.Completes now := by
          refine ⟨?_, hend⟩
          rw [atEnd, halg]
          exact congrArg some hatEnd
        refine ⟨?_, h.unreleased_eq.le, fun hnot => absurd hcompletes hnot⟩
        change OnGrid u a.unreleased
        rw [h.unreleased_eq]
        exact ((hu.trans h.prepared.whole).sub hg.released).add hg.returned
    · have htop := h.topUp_within hu hg (h.participationTarget p)
      rw [if_neg hend] at hpos ⊢
      dsimp only at hpos ⊢
      split_ifs at hpos ⊢ with hnone
      · exact absurd hpos (lt_irrefl _)
      · split at hpos
        · exact absurd hpos (lt_irrefl _)
        · cases hmax : p.maxChildQuantity with
          | none => exact ⟨htop.units, htop.released, fun _ => htop.target⟩
          | some high =>
            have hhigh := h.prepared.sizes p halg high hmax
            have hle := min_le_left (a.topUp (a.participationTarget p)) high
            refine ⟨?_, hle.trans htop.released, fun _ => ?_⟩
            · change OnGrid u (min _ _)
              rcases min_choice (a.topUp (a.participationTarget p)) high with hmin | hmin
              · rw [hmin]
                exact htop.units
              · rw [hmin]
                exact hu.trans hhigh
            · change a.filled + a.working + min _ _ ≤ _
              linarith [htop.target]
  | slicing _ _ | sliceCount _ _ | iceberg _ _ _ _ =>
    rw [halg] at hscheduled
    exact hscheduled.elim

/-! ## What leaves the quantities -/

/-- Two states of one run that differ in what is noted and decided, not in quantities. -/
structure SameQuantities (a b : AlgorithmState) : Prop where
  parent : b.parent = a.parent
  algorithm : b.algorithm = a.algorithm
  terms : b.terms = a.terms
  schedule : b.schedule = a.schedule
  children : b.children = a.children
  released : b.released = a.released
  filled : b.filled = a.filled
  returned : b.returned = a.returned

theorem SameQuantities.refl (a : AlgorithmState) : a.SameQuantities a :=
  ⟨rfl, rfl, rfl, rfl, rfl, rfl, rfl, rfl⟩

variable {c : AlgorithmState}

theorem SameQuantities.trans (h : a.SameQuantities b) (h' : b.SameQuantities c) :
    a.SameQuantities c where
  parent := h'.parent.trans h.parent
  algorithm := h'.algorithm.trans h.algorithm
  terms := h'.terms.trans h.terms
  schedule := h'.schedule.trans h.schedule
  children := h'.children.trans h.children
  released := h'.released.trans h.released
  filled := h'.filled.trans h.filled
  returned := h'.returned.trans h.returned

theorem SameQuantities.working (h : a.SameQuantities b) : b.working = a.working := by
  rw [AlgorithmState.working, AlgorithmState.working, h.released, h.filled, h.returned]

theorem SameQuantities.gridded (h : a.SameQuantities b) (hg : a.Gridded u) :
    b.Gridded u where
  released := h.released ▸ hg.released
  filled := h.filled ▸ hg.filled
  returned := h.returned ▸ hg.returned
  children := h.children ▸ hg.children

theorem Prepared.congr (h : a.Prepared k) (hparent : b.parent = a.parent)
    (halgorithm : b.algorithm = a.algorithm) (hterms : b.terms = a.terms)
    (hschedule : b.schedule = a.schedule) : b.Prepared k := by
  refine ⟨?_, ?_, ?_, ?_, ?_, ?_⟩
  · rw [hparent]; exact h.parent
  · rw [hparent]; exact h.positive
  · rw [hterms]; exact h.increment
  · rw [hterms, hparent]; exact h.whole
  · rw [hschedule, hterms, hparent]; exact h.targets
  · rw [halgorithm, hterms]; exact h.sizes

theorem SameQuantities.tied (h : a.SameQuantities b) (ht : a.Tied k)
    (hobserved : 0 ≤ b.observedVolume) : b.Tied k where
  prepared := ht.prepared.congr h.parent h.algorithm h.terms h.schedule
  gridded := h.gridded ht.gridded
  fits := h.released ▸ ht.fits
  released := by rw [h.released, h.children]; exact ht.released
  filled := by rw [h.filled, h.children]; exact ht.filled
  returned := by rw [h.returned, h.children]; exact ht.returned
  within := by rw [h.released, h.parent, h.returned]; exact ht.within
  sound := h.children ▸ ht.sound
  named := by
    have hname : b.childName = a.childName := by
      funext index
      rw [childName, childName, h.parent]
    rw [h.children, hname]
    exact ht.named
  observed := hobserved

theorem settle_same (a : AlgorithmState) (now : Instant) :
    a.SameQuantities (a.settle now) ∧ (a.settle now).observedVolume = a.observedVolume := by
  rw [settle]
  split_ifs <;> exact ⟨⟨rfl, rfl, rfl, rfl, rfl, rfl, rfl, rfl⟩, rfl⟩

theorem settle_completed (a : AlgorithmState) (now : Instant) :
    (a.settle now).status = .completed ↔
      a.status = .completed ∨ a.filled = a.parent.quantity := by
  rw [settle]
  split_ifs with hcompleted hfilled hterminal hclosed hcompletes <;> simp_all

theorem Tied.settle (h : a.Tied k) (hcompleted : a.status = .completed →
    a.filled = a.parent.quantity) (now : Instant) : (a.settle now).Counted k where
  toTied := (settle_same a now).1.tied h ((settle_same a now).2 ▸ h.observed)
  completed := by
    rw [settle_completed, (settle_same a now).1.filled, (settle_same a now).1.parent]
    exact ⟨fun hor => hor.elim hcompleted id, Or.inr⟩

variable {volumes : List IntervalVolume}

theorem observe_same (h : a.observe volumes = .ok b) :
    a.SameQuantities b ∧ b.status = a.status ∧ (0 ≤ a.observedVolume → 0 ≤ b.observedVolume) := by
  refine foldlM_invariant (fun b => a.SameQuantities b ∧ b.status = a.status ∧
    (0 ≤ a.observedVolume → 0 ≤ b.observedVolume)) h ⟨.refl a, rfl, id⟩ ?_
  rintro interval - s t ht ⟨hsame, hstatus, hvolume⟩
  simp only [observeInterval, bind_ok, require_ok] at ht
  obtain ⟨-, -, -, -, ht⟩ := ht
  split at ht
  · rw [pure_ok] at ht
    subst ht
    exact ⟨hsame.trans ⟨rfl, rfl, rfl, rfl, rfl, rfl, rfl, rfl⟩, hstatus, hvolume⟩
  · rename_i volume hobserved
    rw [pure_ok] at ht
    subst ht
    refine ⟨hsame.trans ⟨rfl, rfl, rfl, rfl, rfl, rfl, rfl, rfl⟩, hstatus, fun h0 => ?_⟩
    exact inContext_nonneg (add_nonneg (hvolume h0) (interval.nonneg volume hobserved))

theorem childName_injective (a : AlgorithmState) : Function.Injective a.childName := by
  intro i j h
  have hdigits : (Nat.repr (i + 1)).toList = (Nat.repr (j + 1)).toList :=
    congrArg String.toList ((String.append_right_inj _).mp h)
  rw [Nat.toList_repr, Nat.toList_repr] at hdigits
  have hnumber := congrArg (Nat.ofDigitChars 10 · 0) hdigits
  simp only [Nat.ofDigitChars_toDigits (by norm_num : 1 < 10) le_rfl] at hnumber
  omega

theorem Tied.child_new (h : a.Tied k) :
    a.children.get? (a.childName a.children.values.length) = none := by
  rw [Option.eq_none_iff_forall_ne_some]
  intro p hp
  have hmem : p.childId ∈ a.children.values.map ChildProgress.childId :=
    List.mem_map.mpr ⟨p, Register.mem_values.mpr (by rwa [Register.key_of_get? hp]), rfl⟩
  rw [h.named, Register.key_of_get? hp] at hmem
  obtain ⟨i, hi, hname⟩ := List.mem_map.mp hmem
  exact absurd (a.childName_injective hname) (List.mem_range.mp hi).ne

/-- **A child released keeps the quantities tied.** -/
theorem Tied.withReleased (h : a.Tied k) {quantity : Decimal} (now : Instant)
    (expires : Option Instant) (hpos : 0 < quantity) (hwhole : Whole k quantity)
    (hwithin : quantity ≤ a.parent.quantity - a.released + a.returned)
    (hroomy : a.released + a.parent.quantity < 10 ^ 33 * quantum k) :
    (a.withReleased (a.child quantity now expires)).Tied k ∧
      (a.withReleased (a.child quantity now expires)).released = a.released + quantity := by
  obtain ⟨hf, hr, hw⟩ := h.nonneg
  have hfits : Fits k quantity := h.prepared.parent.of_le hwhole hpos.le (by linarith)
  have hadded : add a.released quantity = a.released + quantity :=
    h.counters_fit.1.add_eq hfits
  refine ⟨?_, hadded⟩
  set progress : ChildProgress := { child := a.child quantity now expires } with hprogress
  have hnew : a.children.get? progress.childId = none := h.child_new
  have hvalues := Register.values_put_new hnew
  exact {
    prepared := h.prepared.congr rfl rfl rfl rfl
    gridded := {
      released := by
        change OnGrid _ (add a.released quantity)
        rw [hadded]
        exact h.gridded.released.add hwhole
      filled := h.gridded.filled
      returned := h.gridded.returned
      children := by
        intro id p hp
        rcases Register.get?_put_cases hp with ⟨-, rfl⟩ | ⟨-, hp⟩
        · exact ⟨hwhole, onGrid_zero _⟩
        · exact h.gridded.children id p hp }
    fits := by
      change add a.released quantity < _
      rw [hadded]
      linarith
    released := by
      change add a.released quantity = (a.children.put progress).sum _
      rw [Register.sum_put_new _ _ hnew, hadded, h.released]
      rfl
    filled := by
      change a.filled = (a.children.put progress).sum _
      rw [Register.sum_put_new _ _ hnew, h.filled]
      simp [hprogress]
    returned := by
      change a.returned = (a.children.put progress).sum _
      rw [Register.sum_put_new _ _ hnew, h.returned]
      simp [hprogress, ChildProgress.unfilled]
    within := by
      change add a.released quantity ≤ a.parent.quantity + a.returned
      rw [hadded]
      linarith
    sound := by
      intro id p hp
      rcases Register.get?_put_cases hp with ⟨-, rfl⟩ | ⟨-, hp⟩
      · exact ⟨hpos, le_rfl, hpos.le, fun _ => hpos⟩
      · exact h.sound id p hp
    named := by
      change (a.children.put progress).values.map _ =
        (List.range (a.children.put progress).values.length).map a.childName
      rw [hvalues, List.map_append, h.named, List.length_append, List.length_singleton,
        List.range_succ, List.map_append]
      rfl
    observed := h.observed }

/-- **A child that moves keeps the quantities tied**, when the counters move with it. -/
theorem Tied.replaced (h : a.Tied k) {p p' : ChildProgress}
    (hp : a.children.get? p.childId = some p) (hchild : p'.child = p.child) (hsound : p'.Sound)
    (hwhole : Whole k p'.filled) (hparent : b.parent = a.parent)
    (halgorithm : b.algorithm = a.algorithm) (hterms : b.terms = a.terms)
    (hschedule : b.schedule = a.schedule) (hchildren : b.children = a.children.put p')
    (hreleased : b.released = a.released) (hfilled : b.filled = a.filled + (p'.filled - p.filled))
    (hreturned : b.returned = a.returned + (p'.unfilled - p.unfilled))
    (hmore : p.unfilled ≤ p'.unfilled) (hobserved : b.observedVolume = a.observedVolume) :
    b.Tied k := by
  have hkey : p'.childId = p.childId := by rw [ChildProgress.childId, hchild, ChildProgress.childId]
  have hold : a.children.get? p'.childId = some p := by rw [hkey]; exact hp
  obtain ⟨hq, hpf⟩ := h.gridded.children _ p hp
  have hunfilled : Whole k (p'.unfilled - p.unfilled) := by
    refine Whole.sub ?_ ?_ <;> rw [ChildProgress.unfilled] <;> split_ifs
    · rw [hchild]; exact hq.sub hwhole
    · exact whole_zero k
    · exact hq.sub hpf
    · exact whole_zero k
  exact {
    prepared := h.prepared.congr hparent halgorithm hterms hschedule
    gridded := {
      released := hreleased ▸ h.gridded.released
      filled := by rw [hfilled]; exact h.gridded.filled.add (hwhole.sub hpf)
      returned := by rw [hreturned]; exact h.gridded.returned.add hunfilled
      children := by
        intro id c hc
        rw [hchildren] at hc
        rcases Register.get?_put_cases hc with ⟨-, rfl⟩ | ⟨-, hc⟩
        · exact ⟨hchild ▸ hq, hwhole⟩
        · exact h.gridded.children id c hc }
    fits := hreleased ▸ h.fits
    released := by
      rw [hreleased, hchildren, Register.sum_put _ _ hold, h.released, hchild]
      ring
    filled := by
      rw [hfilled, hchildren, Register.sum_put _ _ hold, h.filled]
      ring
    returned := by
      rw [hreturned, hchildren, Register.sum_put _ _ hold, h.returned]
      ring
    within := by
      rw [hreleased, hparent, hreturned]
      linarith [h.within]
    sound := by
      intro id c hc
      rw [hchildren] at hc
      rcases Register.get?_put_cases hc with ⟨-, rfl⟩ | ⟨-, hc⟩
      · exact hsound
      · exact h.sound id c hc
    named := by
      have hname : b.childName = a.childName := by
        funext index
        rw [childName, childName, hparent]
      rw [hchildren, hname, Register.values_put_old hold, List.length_map, ← h.named, List.map_map]
      refine List.map_congr_left fun c _ => ?_
      simp only [Function.comp_apply]
      split_ifs with hc
      · exact hc.symm
      · rfl
    observed := hobserved ▸ h.observed }

variable {p : ChildProgress}

theorem Gridded.put (h : a.Gridded u) (hchildren : b.children = a.children.put p)
    (hp : OnGrid u p.child.quantity ∧ OnGrid u p.filled) (hreleased : OnGrid u b.released)
    (hfilled : OnGrid u b.filled) (hreturned : OnGrid u b.returned) : b.Gridded u := by
  refine ⟨hreleased, hfilled, hreturned, ?_⟩
  intro id c hc
  rw [hchildren] at hc
  rcases Register.get?_put_cases hc with ⟨-, rfl⟩ | ⟨-, hc⟩
  · exact hp
  · exact h.children id c hc

/-! ## One step -/

structure SameRun (a b : AlgorithmState) : Prop where
  parent : b.parent = a.parent
  algorithm : b.algorithm = a.algorithm
  terms : b.terms = a.terms
  schedule : b.schedule = a.schedule

theorem SameRun.refl (a : AlgorithmState) : a.SameRun a := ⟨rfl, rfl, rfl, rfl⟩

theorem SameRun.trans (h : a.SameRun b) (h' : b.SameRun c) : a.SameRun c :=
  ⟨h'.parent.trans h.parent, h'.algorithm.trans h.algorithm, h'.terms.trans h.terms,
    h'.schedule.trans h.schedule⟩

theorem SameQuantities.sameRun (h : a.SameQuantities b) : a.SameRun b :=
  ⟨h.parent, h.algorithm, h.terms, h.schedule⟩

/-- What a step keeps: the run, the invariant, and every grid the step is on. -/
structure Kept (k : ℕ) (a b : AlgorithmState) (onUnit : Decimal → Prop) : Prop where
  run : a.SameRun b
  counted : b.Counted k
  gridded : ∀ u, OnGrid u a.terms.quantityIncrement → onUnit u → a.Gridded u → b.Gridded u

theorem Kept.settled {onUnit : Decimal → Prop} (hrun : a.SameRun b) (htied : b.Tied k)
    (hcompleted : b.status = .completed → b.filled = b.parent.quantity)
    (hgridded : ∀ u, OnGrid u a.terms.quantityIncrement → onUnit u → a.Gridded u → b.Gridded u)
    (now : Instant) (hc : c = b.settle now) : a.Kept k c onUnit := by
  subst hc
  exact ⟨hrun.trans (settle_same b now).1.sameRun, htied.settle hcompleted now,
    fun u hu hunit hg => (settle_same b now).1.gridded (hgridded u hu hunit hg)⟩

variable {children : List ChildOrder}

/-- How a release ends: with nothing decided, with nothing due, or with one child. -/
theorem releaseChildren_ok (h : a.releaseChildren support now volumes = .ok (b, children)) :
    ∃ o, a.observe volumes = .ok o ∧
      (children = [] ∧ b = o ∨
        o.isTerminal = false ∧ ∃ notes expires, let noted := { o with notes := notes }
          children = [] ∧ b = noted.settle now ∨
            0 < (o.due support now).1 ∧
              children = [noted.child (o.due support now).1 now expires] ∧
              b = (noted.withReleased
                (noted.child (o.due support now).1 now expires)).settle now) := by
  simp only [releaseChildren, bind_ok] at h
  obtain ⟨o, ho, h⟩ := h
  refine ⟨o, ho, ?_⟩
  by_cases hstopped : o.isTerminal = true ∨ now < o.terms.start
  · rw [if_pos hstopped, pure_ok, Prod.mk.injEq] at h
    exact Or.inl ⟨h.2.symm, h.1.symm⟩
  · rw [if_neg hstopped] at h
    rw [not_or, Bool.not_eq_true] at hstopped
    refine Or.inr ⟨hstopped.1, o.notes ++ (o.due support now).2.2, (o.due support now).2.1, ?_⟩
    by_cases hpos : 0 < (o.due support now).1
    · rw [if_pos hpos, pure_ok, Prod.mk.injEq] at h
      exact Or.inr ⟨hpos, h.2.symm, h.1.symm⟩
    · rw [if_neg hpos, pure_ok, Prod.mk.injEq] at h
      exact Or.inl ⟨h.2.symm, h.1.symm⟩

/-- **A release**: it keeps the invariant, and its child is of something and within the
    target. -/
theorem Counted.release (h : a.Counted k) (hscheduled : a.algorithm.Scheduled)
    (hroomy : a.released + a.parent.quantity < 10 ^ 33 * quantum k)
    (hb : a.releaseChildren support now volumes = .ok (b, children)) :
    a.Kept k b (fun _ => True) ∧ (children ≠ [] → ¬ a.Completes now →
      ∃ o, o.Tied k ∧ a.SameQuantities o ∧ b.observedVolume = o.observedVolume ∧
        b.filled + b.working ≤ o.target now) := by
  obtain ⟨o, ho, hcases⟩ := releaseChildren_ok hb
  obtain ⟨hsame, hstatus, hvolume⟩ := observe_same ho
  have htied : o.Tied k := hsame.tied h.toTied (hvolume h.observed)
  have hcompleted : o.status = .completed → o.filled = o.parent.quantity := by
    rw [hstatus, hsame.filled, hsame.parent]
    exact h.completed.mp
  rcases hcases with ⟨rfl, rfl⟩ | ⟨hworking, notes, expires, ⟨rfl, hbo⟩ | ⟨hpos, rfl, hbo⟩⟩
  · refine ⟨⟨hsame.sameRun, ⟨htied, ?_⟩, fun u _ _ hg => hsame.gridded hg⟩, fun hnone => ?_⟩
    · rw [hstatus, hsame.filled, hsame.parent]
      exact h.completed
    · exact absurd rfl hnone
  · have hnoted : o.SameQuantities { o with notes := notes } :=
      ⟨rfl, rfl, rfl, rfl, rfl, rfl, rfl, rfl⟩
    refine ⟨?_, fun hnone => absurd rfl hnone⟩
    exact Kept.settled (hsame.trans hnoted).sameRun (hnoted.tied htied htied.observed) hcompleted
      (fun u _ _ hg => (hsame.trans hnoted).gridded hg) now hbo
  · set noted : AlgorithmState := { o with notes := notes } with hnotedDef
    have hnoted : o.SameQuantities noted := ⟨rfl, rfl, rfl, rfl, rfl, rfl, rfl, rfl⟩
    have hnotedTied : noted.Tied k := hnoted.tied htied htied.observed
    have hscheduled' : o.algorithm.Scheduled := hsame.algorithm ▸ hscheduled
    have hdue : ∀ u, OnGrid u o.terms.quantityIncrement → o.Gridded u →
        OnGrid u (o.due support now).1 ∧
          (o.due support now).1 ≤ o.parent.quantity - o.released + o.returned ∧
          (¬ o.Completes now → o.filled + o.working + (o.due support now).1 ≤ o.target now) :=
      fun u hu hg => htied.due_within hscheduled' hu hg hpos
    have hk := hdue (quantum k) htied.prepared.increment htied.gridded
    obtain ⟨hreleased, hreleasedEq⟩ := hnotedTied.withReleased now expires hpos hk.1 hk.2.1 (by
      change o.released + o.parent.quantity < _
      rw [hsame.released, hsame.parent]
      exact hroomy)
    refine ⟨?_, fun _ hbefore => ?_⟩
    · refine Kept.settled (b := noted.withReleased (noted.child (o.due support now).1 now expires))
        (hsame.sameRun.trans ⟨rfl, rfl, rfl, rfl⟩) hreleased hcompleted ?_ now hbo
      intro u hu _ hg
      have hgo := hsame.gridded hg
      have hduu := hdue u (hsame.terms ▸ hu) hgo
      refine Gridded.put hgo
        (p := { child := noted.child (o.due support now).1 now expires }) rfl
        ⟨hduu.1, onGrid_zero _⟩ ?_ hgo.filled hgo.returned
      rw [hreleasedEq]
      exact hgo.released.add hduu.1
    · have hwithin := hk.2.2 (by
        rw [Completes, atEnd, hsame.algorithm, hsame.terms]
        exact hbefore)
      refine ⟨o, htied, hsame, ?_, ?_⟩
      · rw [hbo]
        exact (settle_same _ now).2
      · rw [hbo, (settle_same _ now).1.filled, (settle_same _ now).1.working,
          hreleased.working_eq.1, hreleasedEq]
        rw [htied.working_eq.1] at hwithin
        change o.filled + (o.released + (o.due support now).1 - o.filled - o.returned) ≤ _
        linarith

theorem Tied.child_fits (h : a.Tied k) (hp : a.children.get? p.childId = some p) :
    Fits k p.child.quantity ∧ Fits k p.filled := by
  have hsound := h.sound _ p hp
  obtain ⟨hq, hf⟩ := h.gridded.children _ p hp
  have hfits : Fits k p.child.quantity := by
    refine h.counters_fit.1.of_le hq hsound.positive.le ?_
    rw [h.released]
    exact Register.le_sum _ hp fun id c hc => (h.sound id c hc).positive.le
  exact ⟨hfits, hfits.of_le hf hsound.nonneg hsound.within⟩

theorem Tied.openQuantity_le (h : a.Tied k) (hp : a.children.get? p.childId = some p) :
    p.openQuantity ≤ a.released - a.filled - a.returned := by
  rw [h.open_eq]
  refine Register.le_sum _ hp fun id c hc => ?_
  rw [ChildProgress.openQuantity]
  split_ifs
  · exact le_rfl
  · exact sub_nonneg.mpr (h.sound id c hc).within

/-- **A fill**: its child and the counter move by it. -/
theorem Counted.execution {childId executionId : String} {quantity : Decimal}
    {timestamp : Instant} (h : a.Counted k) (hwhole : Whole k quantity)
    (hb : a.recordChildExecution childId executionId quantity timestamp = .ok b) :
    a.Kept k b (fun u => OnGrid u quantity) := by
  rw [recordChildExecution] at hb
  split_ifs at hb with hbooked
  · rw [pure_ok] at hb
    subst hb
    exact ⟨.refl a, h, fun _ _ _ hg => hg⟩
  · simp only [bind_ok, orRefuse_ok] at hb
    obtain ⟨p, hp, hb⟩ := hb
    have hkey : p.childId = childId := Register.key_of_get? hp
    subst hkey
    split at hb
    · cases hb
    · rename_i hopen
      simp only [bind_ok, require_ok, pure_ok] at hb
      obtain ⟨-, hpos, -, hle, hb⟩ := hb
      have hsound := h.sound _ p hp
      obtain ⟨hq, hpf⟩ := h.gridded.children _ p hp
      obtain ⟨hchildFits, hfilledFits⟩ := h.child_fits hp
      -- neither the child's fills nor the run's are rounded
      have hwithin : p.filled + quantity ≤ p.child.quantity :=
        le_of_inContext_le (hpf.add hwhole) hchildFits hsound.positive.le hle
      have hquantity : Fits k quantity :=
        hchildFits.of_le hwhole hpos.le (by linarith [hsound.nonneg])
      have hadded : add p.filled quantity = p.filled + quantity := hfilledFits.add_eq hquantity
      have hcounter : add a.filled quantity = a.filled + quantity :=
        h.counters_fit.2.1.add_eq hquantity
      rw [hadded] at hb
      set moved : ChildProgress := { p with
        filled := p.filled + quantity
        outcome := if p.filled + quantity = p.child.quantity then some .filled else none }
        with hmoved
      have hunfilled : moved.unfilled = p.unfilled := by
        rw [ChildProgress.unfilled, ChildProgress.unfilled, hopen, hmoved]
        by_cases hfull : p.filled + quantity = p.child.quantity
        · simp [hfull]
        · simp [hfull]
      have hmovedSound : moved.Sound := by
        refine ⟨hsound.positive, by linarith [hsound.nonneg], hwithin, fun hnone => ?_⟩
        refine hwithin.lt_of_ne fun hfull => ?_
        rw [hmoved] at hnone
        simp [hfull] at hnone
      set booked : AlgorithmState := { a with
        children := a.children.put moved
        filled := a.filled + quantity
        executions := a.executions ++ [executionId] } with hbooked'
      have hsameChild : moved.child = p.child := rfl
      have hfilled : booked.filled = a.filled + (moved.filled - p.filled) := by
        rw [hbooked', hmoved]
        ring
      have hreturned : booked.returned = a.returned + (moved.unfilled - p.unfilled) := by
        rw [hunfilled, sub_self, add_zero]
      have htied : booked.Tied k :=
        h.toTied.replaced hp hsameChild hmovedSound (hpf.add hwhole) rfl rfl rfl rfl rfl rfl hfilled
          hreturned hunfilled.ge rfl
      refine Kept.settled (b := booked) ⟨rfl, rfl, rfl, rfl⟩ htied ?_ ?_ timestamp ?_
      · -- a completed run has no child that is open
        intro hcompleted
        have hall := h.completed.mp hcompleted
        have hopened := h.openQuantity_le hp
        rw [ChildProgress.openQuantity, hopen] at hopened
        simp only [Option.isSome_none, Bool.false_eq_true, if_false] at hopened
        exfalso
        linarith [h.within, hsound.opened hopen]
      · intro u hu hunit hg
        obtain ⟨hqu, hpu⟩ := hg.children _ p hp
        exact Gridded.put hg (p := moved) rfl ⟨hqu, hpu.add hunit⟩ hg.released
          (hg.filled.add hunit) hg.returned
      · rw [← hb, hcounter]

/-- **An outcome**: what its child did not fill is returned. -/
theorem Counted.outcome {childId : String} {outcome : OrderStatus} {timestamp : Instant}
    (h : a.Counted k) (hb : a.recordChildOutcome childId outcome timestamp = .ok b) :
    a.Kept k b (fun _ => True) := by
  simp only [recordChildOutcome, bind_ok, require_ok, orRefuse_ok] at hb
  obtain ⟨-, -, p, hp, hb⟩ := hb
  have hkey : p.childId = childId := Register.key_of_get? hp
  subst hkey
  split at hb
  · split_ifs at hb
    rw [pure_ok] at hb
    subst hb
    exact ⟨.refl a, h, fun _ _ _ hg => hg⟩
  · rename_i hopen
    rw [pure_ok] at hb
    have hsound := h.sound _ p hp
    obtain ⟨hq, hpf⟩ := h.gridded.children _ p hp
    obtain ⟨hchildFits, hfilledFits⟩ := h.child_fits hp
    have hleft : subtract p.child.quantity p.filled = p.child.quantity - p.filled :=
      hchildFits.subtract_eq hfilledFits
    have hback : add a.returned (p.child.quantity - p.filled) =
        a.returned + (p.child.quantity - p.filled) :=
      h.counters_fit.2.2.add_eq (hchildFits.sub hfilledFits hsound.positive.le hsound.nonneg)
    rw [hleft, hback] at hb
    set ended : ChildProgress := { p with outcome := some outcome } with hended
    set closed : AlgorithmState := { a with
      children := a.children.put ended
      returned := a.returned + (p.child.quantity - p.filled) } with hclosed
    have hsameChild : ended.child = p.child := rfl
    have hunfilled : ended.unfilled = p.child.quantity - p.filled ∧ p.unfilled = 0 := by
      rw [ChildProgress.unfilled, ChildProgress.unfilled, hopen]
      exact ⟨rfl, rfl⟩
    have hendedSound : ended.Sound :=
      ⟨hsound.positive, hsound.nonneg, hsound.within, fun hnone => by cases hnone⟩
    have hfilled : closed.filled = a.filled + (ended.filled - p.filled) := by
      rw [hclosed, hended]
      ring
    have hreturned : closed.returned = a.returned + (ended.unfilled - p.unfilled) := by
      rw [hunfilled.1, hunfilled.2, sub_zero]
    have htied : closed.Tied k :=
      h.toTied.replaced hp hsameChild hendedSound hpf rfl rfl rfl rfl rfl rfl hfilled hreturned
        (by rw [hunfilled.1, hunfilled.2]; exact sub_nonneg.mpr hsound.within) rfl
    set failed : AlgorithmState := if outcome = .rejected ∧ ¬ closed.isTerminal then
      { closed with status := .failed, reason := some (.childRejected p.childId) } else closed
      with hfailed
    have hsame : closed.SameQuantities failed ∧ failed.observedVolume = closed.observedVolume ∧
        (failed.status = .completed → closed.status = .completed) := by
      rw [hfailed]
      split_ifs
      · exact ⟨⟨rfl, rfl, rfl, rfl, rfl, rfl, rfl, rfl⟩, rfl, fun hc => by cases hc⟩
      · exact ⟨.refl _, rfl, id⟩
    refine Kept.settled (b := failed) (SameRun.trans (b := closed) ⟨rfl, rfl, rfl, rfl⟩
      hsame.1.sameRun) (hsame.1.tied htied (hsame.2.1 ▸ htied.observed)) ?_ ?_ timestamp hb.symm
    · intro hcompleted
      rw [hsame.1.filled, hsame.1.parent]
      exact h.completed.mp (hsame.2.2 hcompleted)
    · intro u hu _ hg
      obtain ⟨hqu, hpu⟩ := hg.children _ p hp
      refine hsame.1.gridded (Gridded.put hg (p := ended) rfl ⟨hqu, hpu⟩ hg.released hg.filled ?_)
      exact hg.returned.add (hqu.sub hpu)

theorem Counted.cancel (h : a.Counted k) (reason : String) :
    a.Kept k (a.cancelAlgorithm reason).1 (fun _ => True) := by
  rw [cancelAlgorithm]
  by_cases hterminal : a.isTerminal = true
  · rw [if_pos hterminal]
    exact ⟨.refl a, h, fun _ _ _ hg => hg⟩
  · rw [if_neg hterminal]
    have hsame : a.SameQuantities { a with
        status := .cancelled
        reason := some (.said (if reason = "" then "Cancelled." else reason)) } :=
      ⟨rfl, rfl, rfl, rfl, rfl, rfl, rfl, rfl⟩
    refine ⟨hsame.sameRun, ⟨hsame.tied h.toTied h.observed, ?_⟩, fun u _ _ hg => hsame.gridded hg⟩
    constructor
    · intro hcancelled
      cases hcancelled
    · intro hall
      have hcompleted := h.completed.mpr hall
      rw [isTerminal, hcompleted] at hterminal
      exact absurd rfl hterminal

/-- **One call keeps the invariant**, and every grid its fill is on. -/
theorem Counted.step {call : AlgorithmCall} (h : a.Counted k) (hscheduled : a.algorithm.Scheduled)
    (hcall : call.Written k a) (hb : a.step support call = .ok b) : a.Kept k b call.OnUnit := by
  cases call with
  | release now volumes =>
    rw [AlgorithmState.step] at hb
    cases hreleased : a.releaseChildren support now volumes with
    | error e =>
      rw [hreleased] at hb
      cases hb
    | ok r =>
      rw [hreleased] at hb
      obtain ⟨c, children⟩ := r
      obtain rfl : c = b := ok_inj.mp hb
      exact (h.release hscheduled hcall.2 hreleased).1
  | execution childId executionId quantity timestamp => exact h.execution hcall.1 hb
  | outcome childId outcome timestamp => exact h.outcome hb
  | cancel reason =>
    obtain rfl := pure_ok.mp hb
    exact h.cancel reason

/-- **A plan that fits the accounting context**, with `k` decimals. -/
structure PlanFits (k : ℕ) (parent : OrderRequest) (algorithm : ExecutionAlgorithm)
    (terms : AlgorithmTerms) : Prop where
  quantity : Fits k parent.quantity
  increment : Whole k terms.quantityIncrement
  sizes : ∀ p, algorithm = .participation p → ∀ high ∈ p.maxChildQuantity, Fits k high
  urgency : algorithm.ExactUrgency
  slices : ((algorithm.plannedSlices : Decimal) + 3) *
    (parent.quantity / terms.quantityIncrement + 1) < 2 * 10 ^ 33

theorem mapM_ok_mem {α β : Type} {f : α → Except AlgorithmRefusal β} {l : List α} {read : List β}
    (h : l.mapM f = .ok read) {x : α} (hx : x ∈ l) : ∃ y, f x = .ok y := by
  induction l generalizing read with
  | nil => cases hx
  | cons x' l ih =>
    simp only [List.mapM_cons, bind_ok] at h
    obtain ⟨y, hy, rest, hrest, -⟩ := h
    rcases List.mem_cons.mp hx with rfl | hx
    · exact ⟨y, hy⟩
    · exact ih hrest hx

/-- A run starts with nothing released. -/
theorem start_counted (hexp : support.Exponential) {parent : OrderRequest}
    {algorithm : ExecutionAlgorithm} {terms : AlgorithmTerms}
    (hplan : PlanFits k parent algorithm terms)
    (h : startAlgorithm support parent algorithm terms = .ok a) :
    a.Counted k ∧ a.algorithm = algorithm ∧ a.terms = terms ∧ ∀ u, a.Gridded u := by
  simp only [startAlgorithm, bind_ok, require_ok, pure_ok] at h
  obtain ⟨-, hpos, units, hunits, sizes, hsizes, schedule, hschedule, rfl⟩ := h
  have hnothing : ∀ (u : Decimal) (a : AlgorithmState), a.released = 0 → a.filled = 0 →
      a.returned = 0 → a.children = Register.empty → a.Gridded u := by
    intro u a hr hf hb hc
    refine ⟨hr ▸ onGrid_zero u, hf ▸ onGrid_zero u, hb ▸ onGrid_zero u, ?_⟩
    intro id p hp
    rw [hc] at hp
    cases hp
  refine ⟨⟨?_, ?_⟩, rfl, rfl, fun u => hnothing u _ rfl rfl rfl rfl⟩
  · exact {
      prepared := {
        parent := hplan.quantity
        positive := hpos
        increment := hplan.increment
        whole := ⟨units, requireMultiple_eq hunits hplan.quantity hpos.le hplan.increment
          terms.positive⟩
        targets := by
          rintro s rfl
          exact planSchedule_targets hexp hplan.quantity hpos.le hplan.increment hplan.urgency
            hplan.slices hschedule
        sizes := by
          rintro p rfl high hhigh
          have hmem : high ∈ p.minChildQuantity.toList ++ p.maxChildQuantity.toList := by
            rw [Option.mem_def] at hhigh
            simp [hhigh]
          obtain ⟨n, hn⟩ := mapM_ok_mem hsizes hmem
          exact ⟨n, requireMultiple_eq hn (hplan.sizes p rfl high hhigh)
            (p.bounds high (Or.inr hhigh)).le hplan.increment terms.positive⟩ }
      gridded := hnothing _ _ rfl rfl rfl rfl
      fits := mul_pos (by norm_num) (quantum_pos k)
      released := rfl
      filled := rfl
      returned := rfl
      within := by
        change (0 : Decimal) ≤ parent.quantity + 0
        linarith
      sound := fun _ _ hp => by cases hp
      named := rfl
      observed := le_rfl }
  · constructor
    · intro hcompleted
      cases hcompleted
    · intro hall
      exact absurd hall hpos.ne

theorem Counted.run {start : AlgorithmState} (h : start.Counted k)
    (hscheduled : start.algorithm.Scheduled)
    (hrun : Runs (AlgorithmState.step support) (AlgorithmCall.Written k) start a) :
    a.Counted k ∧ start.SameRun a := by
  refine hrun.invariant (fun a => a.Counted k ∧ start.SameRun a) ⟨h, .refl start⟩ ?_
  rintro a call b ⟨ha, hsame⟩ hcall hb
  have hkept := ha.step (hsame.algorithm ▸ hscheduled) hcall hb
  exact ⟨hkept.counted, hsame.trans hkept.run⟩

theorem Counted.release_allowed (h : a.Counted k) (hscheduled : a.algorithm.Scheduled)
    (hroomy : a.released + a.parent.quantity < 10 ^ 33 * quantum k)
    (hb : a.releaseChildren support now volumes = .ok (b, children)) (hreleased : children ≠ [])
    (hbefore : ¬ a.Completes now)
    (hrate : ∀ p, a.algorithm = .participation p → Whole k (p.rate * b.observedVolume)) :
    b.Allowed now (b.filled + b.working) := by
  obtain ⟨hkept, htarget⟩ := h.release hscheduled hroomy hb
  obtain ⟨o, ho, hsame, hobserved, hle⟩ := htarget hreleased hbefore
  rw [Allowed, hkept.run.algorithm]
  cases halg : a.algorithm with
  | twap _ _ _ | vwap _ _ _ =>
    rw [target, hsame.algorithm, halg] at hle
    rw [planned, hkept.run.schedule, ← hsame.schedule]
    exact hle
  | participation p =>
    rw [target, hsame.algorithm, halg] at hle
    rw [hobserved]
    exact hle.trans (ho.participationTarget_le p (hobserved ▸ hrate p halg))
  | slicing _ _ | sliceCount _ _ | iceberg _ _ _ _ => trivial

/-- **An execution algorithm conserves its parent and does not run ahead**: a schedule or a
    participation whose quantities fit the accounting context, in every run, but for the
    child that completes a participation at its end. -/
theorem conserves_its_parent {support : AlgorithmSupport} (hexp : support.Exponential)
    {parent : OrderRequest} {algorithm : ExecutionAlgorithm} {terms : AlgorithmTerms}
    (hscheduled : algorithm.Scheduled) (hplan : PlanFits k parent algorithm terms)
    {start : AlgorithmState} (hstart : startAlgorithm support parent algorithm terms = .ok start) :
    (∀ a, Runs (AlgorithmState.step support) (AlgorithmCall.Written k) start a →
      a.Conserved ∧
        ∀ now volumes b children, (AlgorithmCall.release now volumes).Written k a →
          a.releaseChildren support now volumes = .ok (b, children) → children ≠ [] →
          ¬ a.Completes now →
          (∀ p, a.algorithm = .participation p → Whole k (p.rate * b.observedVolume)) →
          b.Allowed now (b.filled + b.working)) ∧
      ∀ a, Runs (AlgorithmState.step support)
          (fun a call => call.Written k a ∧ call.OnUnit terms.quantityIncrement) start a →
        ∀ p ∈ a.children.values,
          0 < p.child.quantity ∧ OnGrid terms.quantityIncrement p.child.quantity := by
  obtain ⟨hcounted, halgorithm, hterms, hgridded⟩ := start_counted hexp hplan hstart
  rw [← halgorithm] at hscheduled
  constructor
  · intro a hrun
    obtain ⟨ha, hsame⟩ := hcounted.run hscheduled hrun
    refine ⟨ha.conserved, ?_⟩
    intro now volumes b children hwritten hb hreleased hbefore hrate
    exact ha.release_allowed (hsame.algorithm ▸ hscheduled) hwritten.2 hb hreleased hbefore hrate
  · intro a hrun
    have hinvariant : a.Counted k ∧ start.SameRun a ∧ a.Gridded terms.quantityIncrement := by
      refine hrun.invariant (fun a => a.Counted k ∧ start.SameRun a ∧
        a.Gridded terms.quantityIncrement) ⟨hcounted, .refl start, hgridded _⟩ ?_
      rintro a call b ⟨ha, hsame, hg⟩ ⟨hcall, hunit⟩ hb
      have hkept := ha.step (hsame.algorithm ▸ hscheduled) hcall hb
      refine ⟨hkept.counted, hsame.trans hkept.run, hkept.gridded _ ?_ hunit hg⟩
      rw [hsame.terms, hterms]
      exact ⟨1, by simp⟩
    intro p hp
    have hget := Register.mem_values.mp hp
    exact ⟨(hinvariant.1.sound _ p hget).positive, (hinvariant.2.2.children _ p hget).1⟩

end

/-! ### Runs of three parents -/

def parentOf (quantity : Decimal) : OrderRequest where
  orderId := "P"
  strategyId := "S"
  assetId := "ABC"
  side := .buy
  quantity := quantity
  price := 1

def tenthThenAll : Participation where
  rate := 1 / 10
  atEnd := .completeAtEnd
  rated := by norm_num
  bounds := by simp
  ordered := by simp

theorem one_slice : 1 ≤ 1 := le_rfl

def oneSlice : ExecutionAlgorithm := steadySlices 1 one_slice

/-- **A completing child runs ahead of the volume, and 35 digits conserve nothing**: with
    nothing traded the whole parent is sent at the end; and a parent of ten to the 34th and
    two, which is accepted, has two less to release. -/
theorem completing_child_runs_ahead :
    (∃ start b children, startAlgorithm plainSupport (parentOf 10) (.participation tenthThenAll)
        tenInstants = .ok start ∧
      start.releaseChildren plainSupport 10 [] = .ok (b, children) ∧ children ≠ [] ∧
      ¬ b.Allowed 10 (b.filled + b.working)) ∧
    ∃ start, startAlgorithm plainSupport (parentOf (10 ^ 34 + 2)) oneSlice tenInstants =
        .ok start ∧
      start.filled + start.working + start.unreleased ≠ start.parent.quantity := by
  constructor
  · let ahead (b : AlgorithmState) : Bool := match b.algorithm with
      | .participation p => decide (p.rate * b.observedVolume < b.filled + b.working)
      | _ => false
    obtain ⟨start, hstart, hreleased⟩ := exists_ok_of (x := startAlgorithm plainSupport
      (parentOf 10) (.participation tenthThenAll) tenInstants) (fun start =>
        ((start.releaseChildren plainSupport 10 []).toOption.any fun r =>
          decide (r.2 ≠ [] ∧ ahead r.1 = true)) = true) (by decide +kernel)
    obtain ⟨r, hr, hchildren, hahead⟩ := exists_ok_of
      (x := start.releaseChildren plainSupport 10 []) (fun r => r.2 ≠ [] ∧ ahead r.1 = true)
      hreleased
    refine ⟨start, r.1, r.2, hstart, hr, hchildren, ?_⟩
    simp only [ahead] at hahead
    rw [Allowed]
    split at hahead
    · next p halgorithm =>
      rw [halgorithm]
      exact (of_decide_eq_true hahead).not_ge
    · cases hahead
  · exact exists_ok_of _ (by decide +kernel)

theorem tenUnits_fit : PlanFits 0 (parentOf 10) oneSlice tenInstants where
  quantity := ⟨⟨10, by norm_num [quantum, parentOf]⟩, by norm_num [quantum, parentOf]⟩
  increment := ⟨1, by norm_num [quantum, tenInstants]⟩
  sizes := by intro p hp; cases hp
  urgency := inContext_zero
  slices := by
    norm_num [oneSlice, steadySlices, ExecutionAlgorithm.plannedSlices, parentOf, tenInstants]

/-- Ten units released at once, four of them filled. -/
theorem four_of_ten_conserved :
    ∃ start a, startAlgorithm plainSupport (parentOf 10) oneSlice tenInstants = .ok start ∧
      Runs (step plainSupport) (AlgorithmCall.Written 0) start a ∧ a.filled = 4 ∧ a.Conserved := by
  obtain ⟨start, hstart, hparent, hrun⟩ := exists_ok_of
    (x := startAlgorithm plainSupport (parentOf 10) oneSlice tenInstants) (fun start =>
      (start.released = 0 ∧ start.parent.quantity = 10) ∧
        (((start.step plainSupport (.release 0 [])).bind fun a =>
          a.step plainSupport (.execution "P/1" "E" 4 1)).toOption.any fun a =>
            decide (a.filled = 4)) = true) (by decide +kernel)
  obtain ⟨a, ha, hfilled⟩ := exists_ok_of (x := (start.step plainSupport (.release 0 [])).bind
    fun a => a.step plainSupport (.execution "P/1" "E" 4 1)) (fun a => a.filled = 4) hrun
  obtain ⟨released, hreleased, hfill⟩ := bind_ok.mp ha
  have hroomy : AlgorithmCall.Written 0 start (.release 0 []) := by
    refine ⟨trivial, ?_⟩
    change start.released + start.parent.quantity < _
    rw [hparent.1, hparent.2]
    norm_num [quantum]
  have hruns : Runs (step plainSupport) (AlgorithmCall.Written 0) start a :=
    (Runs.refl.step hroomy hreleased).step
      (i := .execution "P/1" "E" 4 1) ⟨⟨4, by norm_num [quantum]⟩, trivial⟩ hfill
  have hscheduled : oneSlice.Scheduled := trivial
  exact ⟨start, a, hstart, hruns, hfilled,
    ((conserves_its_parent plainSupport_exponential hscheduled tenUnits_fit hstart).1 a hruns).1⟩

end AlgorithmState

end AlphaLab
