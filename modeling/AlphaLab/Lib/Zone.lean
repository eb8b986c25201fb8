/-
  Time zones as their changes of offset, and the wall clocks read in them.

  * a `Zone` is an offset and the instants it changes at, by an hour at most and an hour apart
    at least; `localTime` is what its wall clock shows at an instant;
  * `instantOf` reads a time of the wall clock: a time shown twice is its first instant, a time
    that is skipped is read with the offset before the change;
  * `localTime_instantOf`: what is read shows the time, or a time within an hour after it.

  Instants and times are counted in microseconds.
-/
import AlphaLab.Lib.Clock

namespace Clock

def offsetFrom (before : ℤ) : List (ℤ × ℤ) → ℤ → ℤ
  | [], _ => before
  | (change, after) :: rest, t => if t < change then before else offsetFrom after rest t

/-- The offset a time of the wall clock is read with: a change applies from the later of the two
    times that the clock shows at it. -/
def readingFrom (before : ℤ) : List (ℤ × ℤ) → ℤ → ℤ
  | [], _ => before
  | (change, after) :: rest, shown =>
    if shown < change + max before after then before else readingFrom after rest shown

def After (t : ℤ) (changes : List (ℤ × ℤ)) : Prop := ∀ c ∈ changes.head?, t + hourLength ≤ c.1

/-- Changes by an hour at most, an hour apart at least. -/
def Spaced (before : ℤ) : List (ℤ × ℤ) → Prop
  | [] => True
  | (change, after) :: rest => |after - before| ≤ hourLength ∧ After change rest ∧ Spaced after rest

instance (t : ℤ) (changes : List (ℤ × ℤ)) : Decidable (After t changes) :=
  inferInstanceAs (Decidable (∀ c ∈ changes.head?, t + hourLength ≤ c.1))

instance decidableSpaced : ∀ before changes, Decidable (Spaced before changes)
  | _, [] => inferInstanceAs (Decidable True)
  | before, (change, after) :: rest =>
    have := decidableSpaced after rest
    inferInstanceAs (Decidable (|after - before| ≤ hourLength ∧ After change rest ∧
      Spaced after rest))

structure Zone where
  initial : ℤ
  changes : List (ℤ × ℤ) := []
  spaced : Spaced initial changes := by decide

variable {before t s shown : ℤ} {changes : List (ℤ × ℤ)}

theorem After.lt (h : After t changes) (hs : s < t + hourLength) :
    ∀ c ∈ changes.head?, s < c.1 := fun c hc => hs.trans_le (h c hc)

theorem offsetFrom_of_lt (h : ∀ c ∈ changes.head?, t < c.1) :
    offsetFrom before changes t = before := by
  cases changes with
  | nil => rfl
  | cons c rest => exact if_pos (h c rfl)

theorem le_reading (hspaced : Spaced before changes) (hafter : After t changes)
    (h : t + before ≤ shown) : t ≤ shown - readingFrom before changes shown := by
  induction changes generalizing before t with
  | nil => exact le_sub_iff_add_le.mpr h
  | cons c rest ih =>
    obtain ⟨change, after⟩ := c
    obtain ⟨-, hrest, hspaced⟩ := hspaced
    have hchange : t + hourLength ≤ change := hafter _ rfl
    simp only [readingFrom]
    split_ifs with hlt
    · exact le_sub_iff_add_le.mpr h
    · have hlate : change + after ≤ shown := by
        have := le_max_right before after
        linarith [not_lt.mp hlt]
      have := ih hspaced hrest hlate
      simp only [hourLength] at hchange
      omega

theorem offsetFrom_reading (hspaced : Spaced before changes) (shown : ℤ) :
    readingFrom before changes shown ≤
        offsetFrom before changes (shown - readingFrom before changes shown) ∧
      offsetFrom before changes (shown - readingFrom before changes shown) ≤
        readingFrom before changes shown + hourLength := by
  have hpos : 0 < hourLength := by norm_num [hourLength]
  induction changes generalizing before with
  | nil =>
    simp only [readingFrom, offsetFrom]
    omega
  | cons c rest ih =>
    obtain ⟨change, after⟩ := c
    obtain ⟨hmost, hrest, hspaced⟩ := hspaced
    have hmost' := abs_le.mp hmost
    simp only [readingFrom]
    split_ifs with hlt
    · simp only [offsetFrom]
      split_ifs with hearly
      · omega
      -- the time is skipped: the change has been made by the instant read
      rw [offsetFrom_of_lt (hrest.lt (by omega))]
      omega
    · have hlate : change + after ≤ shown := by omega
      have hread := le_reading hspaced hrest hlate
      simp only [offsetFrom]
      rw [if_neg (not_lt.mpr hread)]
      exact ih hspaced

theorem localTime_lt_reading (hspaced : Spaced before changes)
    (hs : s < shown - readingFrom before changes shown) :
    s + offsetFrom before changes s < shown - readingFrom before changes shown +
      offsetFrom before changes (shown - readingFrom before changes shown) := by
  induction changes generalizing before with
  | nil => exact add_lt_add_left hs _
  | cons c rest ih =>
    have hshown := (offsetFrom_reading hspaced shown).1
    obtain ⟨change, after⟩ := c
    obtain ⟨hmost, hrest, hspaced⟩ := hspaced
    have hmost' := abs_le.mp hmost
    simp only [readingFrom] at hs hshown ⊢
    split_ifs at hs hshown ⊢ with hlt
    · simp only [offsetFrom] at hshown ⊢
      split_ifs at hshown ⊢ with hs' hu
      · omega
      · rw [offsetFrom_of_lt (hrest.lt (by omega))]
        omega
      · omega
      · rw [offsetFrom_of_lt (hrest.lt (by omega)), offsetFrom_of_lt (hrest.lt (by omega))]
        omega
    · have hlate : change + after ≤ shown := by omega
      have hread := le_reading hspaced hrest hlate
      simp only [offsetFrom] at hshown ⊢
      rw [if_neg (not_lt.mpr hread)] at hshown ⊢
      split_ifs with hs'
      · -- all that the clock showed before the change is before the time
        omega
      · exact ih hspaced hs

theorem localTime_le_change (hspaced : Spaced before changes)
    (hchange : offsetFrom before changes t ≠ offsetFrom before changes (t - 1)) (hs : s < t) :
    s + offsetFrom before changes s ≤ t - 1 + offsetFrom before changes (t - 1) := by
  induction changes generalizing before s with
  | nil => exact absurd rfl hchange
  | cons c rest ih =>
    obtain ⟨change, after⟩ := c
    obtain ⟨hmost, hrest, hspaced⟩ := hspaced
    have hmost' := abs_le.mp hmost
    simp only [offsetFrom] at hchange ⊢
    by_cases ht : t - 1 < change
    · rw [if_pos ht] at hchange ⊢
      rw [if_pos (by omega)]
      omega
    · rw [if_neg ht, if_neg (by omega)] at hchange
      rw [if_neg ht]
      split_ifs with hs'
      · -- the next change is an hour away: by then the clock has made up what it lost
        have hnext : change + hourLength ≤ t := by
          by_contra hnear
          refine hchange ?_
          rw [offsetFrom_of_lt (hrest.lt (by omega)), offsetFrom_of_lt (hrest.lt (by omega))]
        have hlast := ih hspaced hchange (by omega : change + hourLength - 1 < t)
        rw [offsetFrom_of_lt (hrest.lt (by omega))] at hlast
        omega
      · exact ih hspaced hchange hs

namespace Zone

variable (zone : Zone)

def localTime (t : ℤ) : ℤ := t + offsetFrom zone.initial zone.changes t

def instantOf (shown : ℤ) : ℤ := shown - readingFrom zone.initial zone.changes shown

variable {zone}

/-- **What is read shows the time**, or one within an hour after it. -/
theorem localTime_instantOf (shown : ℤ) :
    shown ≤ zone.localTime (zone.instantOf shown) ∧
      zone.localTime (zone.instantOf shown) ≤ shown + hourLength := by
  have h := offsetFrom_reading zone.spaced shown
  unfold localTime instantOf
  omega

/-- **Nothing before what is read** has shown as late a time. -/
theorem localTime_lt_instantOf (h : s < zone.instantOf shown) :
    zone.localTime s < zone.localTime (zone.instantOf shown) :=
  localTime_lt_reading zone.spaced h

/-- **Nothing before a change** has shown a later time than is shown just before it. -/
theorem localTime_le_of_change (h : zone.localTime t ≠ zone.localTime (t - 1) + 1) (hs : s < t) :
    zone.localTime s ≤ zone.localTime (t - 1) := by
  refine localTime_le_change zone.spaced ?_ hs
  intro heq
  refine h ?_
  unfold localTime
  omega

def dateOf (t : ℤ) : ℤ := zone.localTime t / dayLength

end Zone

end Clock
