/-
  Every timed input applied once, at its place.

  * `Placed` is what holds between two records: the cursor stands where the latest record that
    was handed leaves it, what was applied is the schedule up to there, in order and in place;
  * `each_input_once`: so it is at the end of a run whose interruptions find the cursor where it
    stands, and which is as it would be without them.
-/
import AlphaLab.Backtesting.Schedule

namespace AlphaLab

open Fallible

variable {σ ι α ε : Type}

/-! ## Slots -/

/-- Whether an entry is ordered before the records of one of the instants that were handed. -/
def Passed (handed : List (MarketRecord α)) (e : ScheduleEntry ι) : Bool :=
  handed.any fun r => e.slot < boundary r.timestamp

section
variable {schedule : RunSchedule ι} {e : ScheduleEntry ι} {t u : Instant}
  {handed : List (MarketRecord α)}

theorem slot_lt_boundary : e.slot < boundary t ↔
    e.at_ < t ∨ e.at_ = t ∧ e.kind.place = .beforeRecords := by
  rw [ScheduleEntry.slot, boundary, Prod.Lex.toLex_lt_toLex]
  refine or_congr_right (and_congr_right fun _ => ?_)
  have hplace := e.kind.place_ne_records
  revert hplace
  cases e.kind.place <;> simp [SchedulePlace.toNat]

theorem slot_mono (h : e.slot < boundary t) (hle : t ≤ u) : e.slot < boundary u := by
  rw [slot_lt_boundary] at h ⊢
  rcases h with hlt | ⟨heq, hplace⟩
  · exact Or.inl (hlt.trans_le hle)
  · rcases hle.lt_or_eq with hlt | rfl
    · exact Or.inl (heq ▸ hlt)
    · exact Or.inr ⟨heq, hplace⟩

theorem at_le_of_slot_lt (h : e.slot < boundary t) : e.at_ ≤ t := by
  rcases slot_lt_boundary.mp h with hlt | ⟨heq, -⟩
  · exact hlt.le
  · exact heq.le

theorem passed_iff : Passed handed e ↔ ∃ r ∈ handed, e.slot < boundary r.timestamp := by
  simp [Passed]

namespace RunSchedule

theorem belowFirst (schedule : RunSchedule ι) (t : Instant) :
    BelowFirst (fun e : ScheduleEntry ι => e.slot < boundary t) schedule.entries := by
  refine schedule.ordered.imp fun {a b} hab => ?_
  simp only [decide_eq_true_eq]
  refine lt_of_le_of_lt ?_
  rcases Prod.Lex.lt_iff.mp hab with hlt | ⟨heq, -⟩
  · exact le_of_lt hlt
  · exact le_of_eq heq

theorem untilFirst (schedule : RunSchedule ι) (t : Instant) :
    BelowFirst (fun e : ScheduleEntry ι => e.at_ ≤ t) schedule.entries := by
  refine schedule.ordered.imp fun {a b} hab => ?_
  simp only [decide_eq_true_eq]
  refine le_trans ?_
  rcases Prod.Lex.lt_iff.mp hab with hlt | ⟨heq, -⟩
  · rcases Prod.Lex.lt_iff.mp hlt with hlt | ⟨heq, -⟩
    · exact le_of_lt hlt
    · exact le_of_eq heq
  · exact le_of_eq (congrArg (fun p => (ofLex p).1) heq)

theorem passedFirst (schedule : RunSchedule ι) (handed : List (MarketRecord α)) :
    BelowFirst (Passed handed) schedule.entries :=
  BelowFirst.any fun r _ => schedule.belowFirst r.timestamp

theorem positionAfter_some (schedule : RunSchedule ι) (t : Instant) :
    schedule.positionAfter (some t) =
      (schedule.entries.takeWhile fun e => e.slot < boundary t).length :=
  bisect_eq (schedule.belowFirst t)

/-- How much of the schedule a run that was handed some records stands past. -/
def passed (schedule : RunSchedule ι) (handed : List (MarketRecord α)) : List (ScheduleEntry ι) :=
  schedule.entries.takeWhile (Passed handed)

end RunSchedule

end

def Happened.entry? : Happened ι α → Option (ScheduleEntry ι)
  | applied e => some e
  | processed _ => none

/-- One thing may happen before another: no entry placed before the records of its instant after
    one of them, and none placed after them before one of them. -/
def InPlace : Happened ι α → Happened ι α → Prop
  | .processed r, .applied e => ¬ (e.at_ = r.timestamp ∧ e.kind.place = .beforeRecords)
  | .applied e, .processed r => ¬ (e.at_ = r.timestamp ∧ e.kind.place = .afterRecords)
  | _, _ => True

namespace Drive

variable {ops : RunOps σ ι α ε} {d d' : Drive σ ι α}

def past (d : Drive σ ι α) (taken : List (ScheduleEntry ι)) (pipeline : σ) : Drive σ ι α :=
  { d with
    cursor := ⟨d.cursor.schedule, d.cursor.position + taken.length,
      taken.foldl ScheduleEntry.onRates d.cursor.rates⟩
    run := { d.run with pipeline := pipeline }
    journal := d.journal ++ taken.map .applied }

/-- **What is due is applied**, and the run's own operations move the pipeline. -/
theorem applyWhile_spec (due : ScheduleEntry ι → Bool) : ∀ {l : List (ScheduleEntry ι)}
    {d d' : Drive σ ι α}, applyWhile ops due l d = .ok d' →
      ∃ pipeline, d' = d.past (l.takeWhile due) pipeline
  | [], d, d', h => by
    obtain rfl := ok_inj.mp h
    exact ⟨d.run.pipeline, by simp [past]⟩
  | e :: l, d, d', h => by
    rw [applyWhile] at h
    split_ifs at h with hdue
    · obtain ⟨next, hnext, h⟩ := bind_ok.mp h
      obtain ⟨closed, -, hnext⟩ := bind_ok.mp hnext
      obtain ⟨applied, -, hnext⟩ := bind_ok.mp hnext
      obtain rfl := ok_inj.mp hnext
      obtain ⟨pipeline, rfl⟩ := applyWhile_spec due h
      refine ⟨pipeline, ?_⟩
      rw [List.takeWhile_cons_of_pos hdue]
      simp only [past, List.length_cons, List.foldl_cons, List.map_cons, List.append_assoc,
        List.cons_append, List.nil_append]
      rw [Nat.add_assoc, Nat.add_comm 1]
    · obtain rfl := ok_inj.mp h
      refine ⟨d.run.pipeline, ?_⟩
      rw [List.takeWhile_cons_of_neg hdue]
      simp [past]

/-! ## Between two records -/

/-- What holds between two records of a run that was handed `handed`. -/
structure Placed (schedule : RunSchedule ι) (handed : List (MarketRecord α)) (d : Drive σ ι α) :
    Prop where
  follows : d.cursor.schedule = schedule
  position : d.cursor.position = (schedule.passed handed).length
  rates : d.cursor.rates = schedule.ratesThrough d.cursor.position
  applied : d.journal.filterMap Happened.entry? = schedule.passed handed
  seen : ∀ r, Happened.processed r ∈ d.journal → r ∈ handed
  inPlace : d.journal.Pairwise InPlace
  last : d.last = handed.getLast?.map (·.timestamp)
  recorded : ∀ t ∈ d.run.lastRecordTimestamp, ∃ r ∈ handed, r.timestamp = t

variable {schedule : RunSchedule ι} {handed : List (MarketRecord α)}

theorem placed_fresh (schedule : RunSchedule ι) (pipeline : σ) (ordering : OrderingGuarantee) :
    Placed schedule [] (fresh schedule pipeline ordering : Drive σ ι α) := by
  have hnone : schedule.passed ([] : List (MarketRecord α)) = [] := by
    rw [RunSchedule.passed]
    cases schedule.entries <;> rfl
  exact ⟨rfl, by rw [hnone]; rfl, rfl, by rw [hnone]; rfl, by simp [fresh], by simp [fresh], rfl,
    by simp [fresh]⟩

/-- What is applied next is not before the records that were handed. -/
theorem Placed.past (h : Placed schedule handed d) {taken : List (ScheduleEntry ι)}
    (hpre : taken <+: d.cursor.pending) (pipeline : σ) :
    (d.past taken pipeline).cursor.rates =
        schedule.ratesThrough (d.past taken pipeline).cursor.position ∧
      (d.past taken pipeline).journal.filterMap Happened.entry? = schedule.passed handed ++ taken ∧
      (d.past taken pipeline).journal.Pairwise InPlace := by
  rw [ScheduleCursor.pending, h.follows] at hpre
  refine ⟨?_, ?_, ?_⟩
  · have htake : schedule.entries.take (d.cursor.position + taken.length) =
        schedule.entries.take d.cursor.position ++ taken := by
      rw [List.take_add, ← List.prefix_iff_eq_take.mp hpre]
    change taken.foldl ScheduleEntry.onRates d.cursor.rates = _
    rw [h.rates, RunSchedule.ratesThrough, RunSchedule.ratesThrough, ← List.foldl_append, ← htake]
    rfl
  · have htaken : (taken.map Happened.applied).filterMap
        (Happened.entry? : Happened ι α → Option (ScheduleEntry ι)) = taken := by
      rw [List.filterMap_map]
      exact List.filterMap_some
    change (d.journal ++ taken.map Happened.applied).filterMap Happened.entry? = _
    rw [List.filterMap_append, h.applied, htaken]
  · refine List.pairwise_append.mpr ⟨h.inPlace, ?_, ?_⟩
    · exact List.pairwise_map.mpr (List.pairwise_of_forall fun _ _ => trivial)
    · rintro (e | r) hx y hy
      · obtain ⟨e', -, rfl⟩ := List.mem_map.mp hy
        trivial
      · obtain ⟨e, he, rfl⟩ := List.mem_map.mp hy
        rintro ⟨hat, hplace⟩
        have hnot : ¬ Passed handed e := by
          refine (schedule.passedFirst handed).of_mem_drop ?_
          rw [h.position] at hpre
          exact hpre.subset he
        exact hnot (passed_iff.mpr ⟨r, h.seen r hx, slot_lt_boundary.mpr (Or.inr ⟨hat, hplace⟩)⟩)

theorem passed_concat (schedule : RunSchedule ι) (handed : List (MarketRecord α))
    (r : MarketRecord α) : schedule.passed handed ++
        (schedule.entries.drop (schedule.passed handed).length).takeWhile
          (fun e => e.slot < boundary r.timestamp) =
      schedule.passed (handed ++ [r]) := by
  rw [RunSchedule.passed, (schedule.passedFirst handed).takeWhile_append_drop, RunSchedule.passed]
  refine congrArg (fun p => schedule.entries.takeWhile p) (funext fun e => ?_)
  rw [Passed, Passed, List.any_append, List.any_cons, List.any_nil, Bool.or_false]

variable {r : MarketRecord α}

theorem Placed.before (h : Placed schedule handed d) (hd : d.before ops r.timestamp = .ok d')
    (pipeline : σ) :
    Placed schedule (handed ++ [r])
      { d' with run := { d'.run with pipeline := pipeline }, last := some r.timestamp } := by
  obtain ⟨p, rfl⟩ := applyWhile_spec _ hd
  obtain ⟨hrates, happlied, hinPlace⟩ := h.past (List.takeWhile_prefix _) p
  have hpassed := passed_concat schedule handed r
  have hpending : d.cursor.pending = schedule.entries.drop (schedule.passed handed).length := by
    rw [ScheduleCursor.pending, h.follows, h.position]
  rw [hpending] at hrates happlied hinPlace ⊢
  rw [hpassed] at happlied
  refine ⟨h.follows, ?_, hrates, happlied, ?_, hinPlace, ?_, ?_⟩
  · change d.cursor.position + _ = _
    rw [h.position, ← hpassed, List.length_append]
  · intro r' hr'
    rcases List.mem_append.mp hr' with hr' | hr'
    · exact List.mem_append_left _ (h.seen r' hr')
    · obtain ⟨e, -, he⟩ := List.mem_map.mp hr'
      cases he
  · simp
  · intro t ht
    obtain ⟨r', hr', ht⟩ := h.recorded t ht
    exact ⟨r', List.mem_append_left _ hr', ht⟩

theorem Placed.processed (h : Placed schedule handed d) (hr : r ∈ handed)
    (hafter : ∀ e ∈ schedule.passed handed, e.at_ = r.timestamp → e.kind.place ≠ .afterRecords)
    (pipeline : σ) :
    Placed schedule handed
      { d with
        run := { d.run with pipeline := pipeline, lastRecordTimestamp := some r.timestamp }
        journal := d.journal ++ [.processed r] } := by
  refine ⟨h.follows, h.position, h.rates, ?_, ?_, ?_, h.last, ?_⟩
  · rw [List.filterMap_append, h.applied]
    exact List.append_nil _
  · intro r' hr'
    rcases List.mem_append.mp hr' with hr' | hr'
    · exact h.seen r' hr'
    · obtain rfl := Happened.processed.inj (List.mem_singleton.mp hr')
      exact hr
  · refine List.pairwise_append.mpr ⟨h.inPlace, List.pairwise_singleton _ _, ?_⟩
    rintro (e | r') hx y hy
    · obtain rfl := List.mem_singleton.mp hy
      rintro ⟨hat, hplace⟩
      have he : e ∈ d.journal.filterMap Happened.entry? := List.mem_filterMap.mpr ⟨_, hx, rfl⟩
      exact hafter e (h.applied ▸ he) hat hplace
    · obtain rfl := List.mem_singleton.mp hy
      trivial
  · rintro t ht
    exact ⟨r, hr, Option.some.inj ht⟩

theorem advance_cases (h : d.advance ops r = .ok d') :
    d' = d ∨ d.InOrder r ∧ ops.priceRefused r = false ∧ ∃ pipeline,
      d' = { d with
        run := { d.run with pipeline := pipeline, lastRecordTimestamp := some r.timestamp }
        journal := d.journal ++ [.processed r] } := by
  rw [advance] at h
  split_ifs at h with horder hrefused hchronological
  · exact Or.inl (ok_inj.mp h).symm
  · obtain ⟨pipeline, -, h⟩ := bind_ok.mp h
    exact Or.inr ⟨horder, by simpa using hrefused, pipeline, (ok_inj.mp h).symm⟩
  · exact Or.inl (ok_inj.mp h).symm

/-- Where a step keeps the run's place.  A record is processed after none of its instant's later
    entries; an interruption finds nothing between the last record and an earlier one. -/
def Keeps (ops : RunOps σ ι α ε) (schedule : RunSchedule ι) (handed : List (MarketRecord α))
    (d : Drive σ ι α) : Step α → Prop
  | .hand r => d.InOrder r → ops.priceRefused r = false → ∀ e ∈ schedule.entries,
      e.at_ = r.timestamp → e.kind.place = .afterRecords → ¬ Passed handed e
  | .interrupt => ∀ e ∈ schedule.entries, Passed handed e →
      ∀ last ∈ d.last, e.slot < boundary last

theorem Placed.hand (h : Placed schedule handed d) (hkeeps : Keeps ops schedule handed d (.hand r))
    (hd : d.hand ops r = .ok d') : Placed schedule (handed ++ [r]) d' := by
  obtain ⟨mid, hmid, hd⟩ := bind_ok.mp hd
  obtain ⟨closed, -, hd⟩ := bind_ok.mp hd
  obtain ⟨advanced, hadvanced, hd⟩ := bind_ok.mp hd
  obtain rfl := ok_inj.mp hd
  rcases advance_cases hadvanced with rfl | ⟨horder, hrefused, pipeline, rfl⟩
  · exact h.before hmid closed
  · have hlast : mid.run.lastRecordTimestamp = d.run.lastRecordTimestamp := by
      obtain ⟨p, rfl⟩ := applyWhile_spec _ hmid
      rfl
    have horder' : d.InOrder r := fun previous hprevious => horder previous (hlast ▸ hprevious)
    refine (h.before hmid closed).processed (List.mem_append_right _ (List.mem_singleton_self r))
      (fun e he hat hplace => ?_) pipeline
    have hentry : e ∈ schedule.entries := (List.takeWhile_subset _ he)
    have hpassed : Passed (handed ++ [r]) e := List.mem_takeWhile_imp he
    rw [Passed, List.any_append, Bool.or_eq_true] at hpassed
    rcases hpassed with hpassed | hpassed
    · exact hkeeps horder' hrefused e hentry hat hplace hpassed
    · have hslot : e.slot < boundary r.timestamp := by simpa using hpassed
      rcases slot_lt_boundary.mp hslot with hlt | ⟨-, hbefore⟩
      · exact absurd hat hlt.ne
      · rw [hplace] at hbefore
        cases hbefore

/-- **An interruption finds the cursor where it stands.** -/
theorem Placed.interrupted (h : Placed schedule handed d)
    (hkeeps : Keeps ops schedule handed d .interrupt) : d.interrupted = d := by
  have hposition : schedule.positionAfter d.last = d.cursor.position := by
    rw [h.position]
    cases hlast : d.last with
    | none =>
      have hnone : handed = [] := by
        rw [h.last] at hlast
        simpa using hlast
      rw [hnone, RunSchedule.positionAfter, RunSchedule.passed]
      cases schedule.entries <;> rfl
    | some last =>
      rw [RunSchedule.positionAfter_some, RunSchedule.passed]
      refine congrArg List.length (takeWhile_congr_mem fun e he => ?_)
      rw [Bool.eq_iff_iff, decide_eq_true_eq]
      constructor
      · intro hslot
        rw [h.last] at hlast
        obtain ⟨r, hr, rfl⟩ := Option.map_eq_some_iff.mp hlast
        exact passed_iff.mpr ⟨r, List.mem_of_getLast? hr, hslot⟩
      · exact fun hpassed => hkeeps e he hpassed last hlast
  have hcursor : ScheduleCursor.start d.cursor.schedule d.last = d.cursor := by
    rw [ScheduleCursor.start, h.follows, hposition, ← h.rates, ← h.follows]
  rw [Drive.interrupted, hcursor]

/-! ## Runs -/

def Step.records : Step α → List (MarketRecord α)
  | hand r => [r]
  | interrupt => []

def Step.hands : Step α → Bool
  | hand _ => true
  | interrupt => false

def finishInstant (passesLast : Bool) (d : Drive σ ι α) : Option Instant :=
  (if passesLast then d.last else none).or d.run.lastRecordTimestamp

/-- Where the end of the data applies the rest: every entry at or before a record that was
    handed is applied, or at or before the instant the end is applied through. -/
def Ends (schedule : RunSchedule ι) (passesLast : Bool) (handed : List (MarketRecord α))
    (d : Drive σ ι α) : Prop :=
  ∀ e ∈ schedule.entries, ∀ r ∈ handed, e.at_ ≤ r.timestamp →
    Passed handed e ∨ ∃ last ∈ finishInstant passesLast d, e.at_ ≤ last

def KeepsPlace (ops : RunOps σ ι α ε) (schedule : RunSchedule ι) (passesLast : Bool) :
    List (MarketRecord α) → List (Step α) → Drive σ ι α → Prop
  | handed, [], d => Ends schedule passesLast handed d
  | handed, s :: steps, d => Keeps ops schedule handed d s ∧
      ∀ d', step ops d s = .ok d' → KeepsPlace ops schedule passesLast (handed ++ s.records) steps d'

theorem Placed.step {s : Step α} (h : Placed schedule handed d)
    (hkeeps : Keeps ops schedule handed d s) (hd : step ops d s = .ok d') :
    Placed schedule (handed ++ s.records) d' := by
  cases s with
  | hand r => exact h.hand hkeeps hd
  | interrupt =>
    obtain rfl := ok_inj.mp hd
    rw [h.interrupted hkeeps]
    simpa [Step.records] using h

/-- What the end of the data leaves applied. -/
theorem Placed.finish {passesLast : Bool} (h : Placed schedule handed d)
    (hends : Ends schedule passesLast handed d)
    (hd : d.finish ops (if passesLast then d.last else none) = .ok d') :
    d'.journal.filterMap Happened.entry? =
        schedule.entries.filter (fun e => handed.any fun r => e.at_ ≤ r.timestamp) ∧
      d'.journal.Pairwise InPlace := by
  have hpassed : ∀ e : ScheduleEntry ι, Passed handed e →
      handed.any fun r => e.at_ ≤ r.timestamp := by
    intro e he
    obtain ⟨r, hr, hslot⟩ := passed_iff.mp he
    exact List.any_eq_true.mpr ⟨r, hr, by simpa using at_le_of_slot_lt hslot⟩
  have huntil : BelowFirst (fun e : ScheduleEntry ι => handed.any fun r => e.at_ ≤ r.timestamp)
      schedule.entries := BelowFirst.any fun r _ => schedule.untilFirst r.timestamp
  have hpending : d.cursor.pending = schedule.entries.drop (schedule.passed handed).length := by
    rw [ScheduleCursor.pending, h.follows, h.position]
  unfold Drive.finish at hd
  split at hd
  · rename_i hnone
    obtain rfl := ok_inj.mp hd
    refine ⟨?_, h.inPlace⟩
    rw [h.applied, RunSchedule.passed, ← huntil.takeWhile_eq_filter]
    refine takeWhile_congr_mem fun e he => ?_
    rw [Bool.eq_iff_iff]
    refine ⟨hpassed e, fun hany => ?_⟩
    obtain ⟨r, hr, hle⟩ := List.any_eq_true.mp hany
    rcases hends e he r hr (of_decide_eq_true hle) with hpassed | ⟨last, hlast, -⟩
    · exact hpassed
    · rw [finishInstant, hnone] at hlast
      cases hlast
  · rename_i last hlast
    obtain ⟨p, rfl⟩ := applyWhile_spec _ hd
    obtain ⟨-, happlied, hinPlace⟩ := h.past (List.takeWhile_prefix _) p
    refine ⟨?_, hinPlace⟩
    rw [happlied, hpending, RunSchedule.passed, (schedule.passedFirst handed).takeWhile_append_drop,
      ← huntil.takeWhile_eq_filter]
    refine takeWhile_congr_mem fun e he => ?_
    rw [Bool.eq_iff_iff, Bool.or_eq_true, decide_eq_true_eq]
    constructor
    · rintro (he | hle)
      · exact hpassed e he
      · have hmem : ∃ r ∈ handed, r.timestamp = last := by
          rcases Option.or_eq_some_iff.mp hlast with hgiven | ⟨-, hrecorded⟩
          · cases passesLast with
            | false => cases hgiven
            | true =>
              rw [if_pos rfl, h.last] at hgiven
              obtain ⟨r, hr, hlast⟩ := Option.map_eq_some_iff.mp hgiven
              exact ⟨r, List.mem_of_getLast? hr, hlast⟩
          · exact h.recorded last hrecorded
        obtain ⟨r, hr, rfl⟩ := hmem
        exact List.any_eq_true.mpr ⟨r, hr, by simpa using hle⟩
    · intro hany
      obtain ⟨r, hr, hle⟩ := List.any_eq_true.mp hany
      rcases hends e he r hr (of_decide_eq_true hle) with hpassed | ⟨last', hlast', hle'⟩
      · exact Or.inl hpassed
      · rw [finishInstant, hlast] at hlast'
        exact Or.inr (Option.some.inj hlast' ▸ hle')

/-- Every timed input of a run was applied once, at its place, as it is without interruptions. -/
structure EachInputOnce (ops : RunOps σ ι α ε) (schedule : RunSchedule ι) (passesLast : Bool)
    (handed : List (MarketRecord α)) (steps : List (Step α)) (start finished : Drive σ ι α) :
    Prop where
  applied : finished.journal.filterMap Happened.entry? =
    schedule.entries.filter fun e => handed.any fun r => e.at_ ≤ r.timestamp
  inPlace : finished.journal.Pairwise InPlace
  uninterrupted : drive ops passesLast (steps.filter Step.hands) start = .ok finished

theorem Placed.drive {passesLast : Bool} : ∀ {steps : List (Step α)}
    {handed : List (MarketRecord α)} {d d' : Drive σ ι α}, Placed schedule handed d →
    KeepsPlace ops schedule passesLast handed steps d → drive ops passesLast steps d = .ok d' →
    EachInputOnce ops schedule passesLast (handed ++ steps.flatMap Step.records) steps d d'
  | [], handed, d, d', h, hkeeps, hd => by
    have hfinish : d.finish ops (if passesLast then d.last else none) = .ok d' := hd
    obtain ⟨happlied, hinPlace⟩ := h.finish hkeeps hfinish
    exact ⟨by simpa using happlied, hinPlace, hd⟩
  | s :: steps, handed, d, d', h, hkeeps, hd => by
    obtain ⟨final, hfold, hfinish⟩ := bind_ok.mp hd
    rw [List.foldlM_cons, bind_ok] at hfold
    obtain ⟨next, hnext, hfold⟩ := hfold
    have hdrive : Drive.drive ops passesLast steps next = .ok d' := bind_ok.mpr ⟨final, hfold, hfinish⟩
    obtain ⟨happlied, hinPlace, huninterrupted⟩ := (h.step hkeeps.1 hnext).drive (hkeeps.2 next hnext) hdrive
    refine ⟨by simpa using happlied, hinPlace, ?_⟩
    cases s with
    | hand r =>
      obtain ⟨final', hfold', hfinish'⟩ := bind_ok.mp huninterrupted
      refine bind_ok.mpr ⟨final', ?_, hfinish'⟩
      rw [List.filter_cons_of_pos rfl, List.foldlM_cons, bind_ok]
      exact ⟨next, hnext, hfold'⟩
    | interrupt =>
      obtain rfl := ok_inj.mp hnext
      rw [h.interrupted hkeeps.1] at huninterrupted
      exact huninterrupted

/-- **Every timed input is applied once, at its place**, in a run that keeps its place: what is at
    or before the records that were handed, and as it is without interruptions. -/
theorem each_input_once (ops : RunOps σ ι α ε) (schedule : RunSchedule ι) (passesLast : Bool)
    (pipeline : σ) (ordering : OrderingGuarantee) (steps : List (Step α)) (finished : Drive σ ι α)
    (hkeeps : KeepsPlace ops schedule passesLast [] steps (fresh schedule pipeline ordering))
    (hdrive : drive ops passesLast steps (fresh schedule pipeline ordering) = .ok finished) :
    EachInputOnce ops schedule passesLast (steps.flatMap Step.records) steps
      (fresh schedule pipeline ordering) finished := by
  simpa using (placed_fresh schedule pipeline ordering).drive hkeeps hdrive

theorem le_last_of_sorted (hsorted : handed.Pairwise fun a b => a.timestamp ≤ b.timestamp)
    (hr : r ∈ handed) : ∃ last ∈ handed.getLast?.map (·.timestamp), r.timestamp ≤ last := by
  rcases List.eq_nil_or_concat' handed with rfl | ⟨earlier, last, rfl⟩
  · cases hr
  · refine ⟨last.timestamp, by simp, ?_⟩
    rcases List.mem_append.mp hr with hr | hr
    · exact (List.pairwise_append.mp hsorted).2.2 r hr last (List.mem_singleton_self last)
    · exact (congrArg MarketRecord.timestamp (List.mem_singleton.mp hr)).le

/-- **Where no record regresses a run keeps its place**, however often it is interrupted. -/
theorem Placed.keepsPlace : ∀ {steps : List (Step α)} {handed : List (MarketRecord α)}
    {d : Drive σ ι α}, Placed schedule handed d →
    (handed ++ steps.flatMap Step.records).Pairwise (fun a b => a.timestamp ≤ b.timestamp) →
    KeepsPlace ops schedule true handed steps d
  | [], handed, d, h, hsorted => by
    rw [List.flatMap_nil, List.append_nil] at hsorted
    intro e _ r hr hle
    obtain ⟨last, hlast, hr⟩ := le_last_of_sorted hsorted hr
    refine Or.inr ⟨last, ?_, hle.trans hr⟩
    rw [finishInstant, if_pos rfl, h.last, Option.mem_def.mp hlast]
    rfl
  | s :: steps, handed, d, h, hsorted => by
    have hkeeps : Keeps ops schedule handed d s := by
      cases s with
      | hand r =>
        rintro - - e - hat hplace hpassed
        obtain ⟨r', hr', hslot⟩ := passed_iff.mp hpassed
        have hle : r'.timestamp ≤ r.timestamp :=
          (List.pairwise_append.mp hsorted).2.2 r' hr' r (by simp [Step.records])
        rcases slot_lt_boundary.mp (slot_mono hslot hle) with hlt | ⟨-, hbefore⟩
        · exact absurd hat hlt.ne
        · rw [hplace] at hbefore
          cases hbefore
      | interrupt =>
        rintro e - hpassed last hlast
        obtain ⟨r, hr, hslot⟩ := passed_iff.mp hpassed
        obtain ⟨last', hlast', hle⟩ :=
          le_last_of_sorted (List.pairwise_append.mp hsorted).1 hr
        rw [h.last, Option.mem_def] at hlast
        obtain rfl := Option.some.inj (hlast.symm.trans hlast')
        exact slot_mono hslot hle
    refine ⟨hkeeps, fun d' hd' => (h.step hkeeps hd').keepsPlace ?_⟩
    rw [List.append_assoc]
    simpa only [List.flatMap_cons] using hsorted

/-- Operations of a run that keeps a cash balance alone: an input is a deposit. -/
def cashOnly : RunOps Decimal Decimal Unit Unit where
  closeSlice _ _ cash := .ok cash
  applyInput amount _ cash := .ok (cash + amount)
  priceRefused _ := false
  processRecord _ _ cash := .ok cash

def depositAt7 : RunSchedule Decimal where
  entries := [⟨7, .funding, "EUR", .inr 500, by simp⟩]
  rateMaxAgeSeconds := none
  ordered := List.pairwise_singleton _ _

def recordAt (timestamp : Instant) : MarketRecord Unit := ⟨"r", timestamp, ⟨timestamp, ()⟩⟩

/-- A run that is interrupted after its latest record keeps its place. -/
theorem deposited_once :
    ∃ finished, EachInputOnce cashOnly depositAt7 true [recordAt 10, recordAt 12]
      [.hand (recordAt 10), .interrupt, .hand (recordAt 12)] (fresh depositAt7 0 .unordered)
      finished := by
  obtain ⟨finished, hfinished, -⟩ := exists_ok_of
    (x := drive cashOnly true [.hand (recordAt 10), .interrupt, .hand (recordAt 12)]
      (fresh depositAt7 0 .unordered)) (fun _ => True) (by decide +kernel)
  refine ⟨finished, each_input_once _ _ _ _ _ _ _ ((placed_fresh _ _ _).keepsPlace ?_) hfinished⟩
  exact List.pairwise_pair.mpr (by decide +kernel)

/-- **An interruption after a skipped record repeats a deposit**: records at 10, 5 and 12, the
    second one skipped. -/
theorem skipped_record_repeats_deposit :
    (drive cashOnly true [.hand (recordAt 10), .hand (recordAt 5), .hand (recordAt 12)]
        (fresh depositAt7 0 .unordered)).toOption.map (fun d => d.run.pipeline) = some 500 ∧
      (drive cashOnly true [.hand (recordAt 10), .hand (recordAt 5), .interrupt,
        .hand (recordAt 12)] (fresh depositAt7 0 .unordered)).toOption.map
          (fun d => d.run.pipeline) = some 1000 := by
  decide +kernel

end Drive

end AlphaLab
