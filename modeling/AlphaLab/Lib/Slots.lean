/-
  Slots that hold one item each, and trails of moves.

  * `Held holds i`: some slot holds the item `i`.  `held_put_iff` is what putting an
    item in a slot changes: the item put is held, the one it displaced is held where
    another slot holds it, and every other is held as before;
  * `Trail a moves b`: the moves lead from `a` to `b`, each from where the last one
    ended.
-/
import Mathlib.Logic.Function.Basic
import Mathlib.Data.List.Chain
import Mathlib.Tactic

namespace Slots

variable {σ ι : Type*}

/-- Some slot holds `i`. -/
def Held (holds : σ → Option ι) (i : ι) : Prop := ∃ s, holds s = some i

section
variable [DecidableEq σ]

/-- The slots once `i` is put in `s`. -/
def put (holds : σ → Option ι) (s : σ) (i : ι) : σ → Option ι :=
  Function.update holds s (some i)

@[simp] theorem put_self (holds : σ → Option ι) (s : σ) (i : ι) : put holds s i s = some i := by
  simp [put]

theorem put_of_ne (holds : σ → Option ι) {s t : σ} (i : ι) (h : t ≠ s) :
    put holds s i t = holds t := by
  simp [put, h]

theorem held_put_self (holds : σ → Option ι) (s : σ) (i : ι) : Held (put holds s i) i :=
  ⟨s, put_self holds s i⟩

theorem held_put_iff (holds : σ → Option ι) (s : σ) {i j : ι} (h : j ≠ i) :
    Held (put holds s i) j ↔ ∃ t, t ≠ s ∧ holds t = some j := by
  constructor
  · rintro ⟨t, ht⟩
    by_cases hts : t = s
    · subst hts
      rw [put_self] at ht
      exact absurd (Option.some.inj ht).symm h
    · exact ⟨t, hts, put_of_ne holds i hts ▸ ht⟩
  · rintro ⟨t, hts, ht⟩
    exact ⟨t, (put_of_ne holds i hts).trans ht⟩

theorem held_put_other (holds : σ → Option ι) {s : σ} {i j : ι} (h : j ≠ i)
    (hs : holds s ≠ some j) : Held (put holds s i) j ↔ Held holds j := by
  rw [held_put_iff holds s h]
  constructor
  · rintro ⟨t, -, ht⟩
    exact ⟨t, ht⟩
  · rintro ⟨t, ht⟩
    refine ⟨t, ?_, ht⟩
    rintro rfl
    exact hs ht

/-- **Marks follow the slots.** -/
theorem live_put {holds : σ → Option ι} {live live' : ι → Prop} {s : σ} {i : ι}
    (hlive : ∀ j, live j ↔ Held holds j) (hput : live' i)
    (hout : ∀ j, j ≠ i → holds s = some j → (live' j ↔ Held (put holds s i) j))
    (hrest : ∀ j, j ≠ i → holds s ≠ some j → (live' j ↔ live j)) (j : ι) :
    live' j ↔ Held (put holds s i) j := by
  by_cases hji : j = i
  · subst hji
    exact ⟨fun _ => held_put_self holds s j, fun _ => hput⟩
  · by_cases hs : holds s = some j
    · exact hout j hji hs
    · rw [hrest j hji hs, hlive, held_put_other holds hji hs]

end

/-- The moves lead from `a` to `b`. -/
def Trail (a : ι) : List (ι × ι) → ι → Prop
  | [], b => a = b
  | m :: moves, b => m.1 = a ∧ Trail m.2 moves b

theorem Trail.concat {a b c : ι} {moves : List (ι × ι)} (h : Trail a moves b) :
    Trail a (moves ++ [(b, c)]) c := by
  induction moves generalizing a with
  | nil => exact ⟨h.symm, rfl⟩
  | cons m moves ih => exact ⟨h.1, ih h.2⟩

theorem isChain_concat {R : ι → ι → Prop} {l : List ι} {i : ι} (h : l.IsChain R)
    (hlast : ∀ j ∈ l.getLast?, R j i) : (l ++ [i]).IsChain R := by
  refine List.isChain_append.mpr ⟨h, List.isChain_singleton i, ?_⟩
  intro x hx y hy
  rw [List.head?_singleton] at hy
  obtain rfl := Option.some.inj (Option.mem_def.mp hy)
  exact hlast x hx

theorem ne_of_isChain {l : List ι} {i j : ι} (h : (l ++ [i, j]).IsChain (· ≠ ·)) : i ≠ j := by
  have hpair := (List.isChain_append.mp h).2.1
  simpa using hpair

end Slots
