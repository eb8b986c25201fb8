/-
  Deduplication against one number per key: a high-water mark.

  `marks ks` keeps the greatest number seen of each key; `Admits d k` lets a number
  through that is above its key's mark.  What is let through was never seen
  (`notMem_of_admits`), and everything never seen is let through exactly when the
  numbers of each key first appear in increasing order (`firstsAscend_iff`).
-/
import AlphaLab.Lib.Dict

namespace Watermark

variable {κ ν : Type*} [DecidableEq κ] [LinearOrder ν]

def Admits (d : Dict κ ν) (k : κ × ν) : Prop := ∀ last ∈ d.get? k.1, last < k.2

instance (d : Dict κ ν) (k : κ × ν) : Decidable (Admits d k) :=
  inferInstanceAs (Decidable (∀ last ∈ d.get? k.1, last < k.2))

def raise (d : Dict κ ν) (k : κ × ν) : Dict κ ν := if Admits d k then d.set k.1 k.2 else d

def marks (ks : List (κ × ν)) : Dict κ ν := ks.foldl raise Dict.empty

@[simp] theorem marks_nil : marks ([] : List (κ × ν)) = Dict.empty := rfl

@[simp] theorem marks_append_singleton (ks : List (κ × ν)) (k : κ × ν) :
    marks (ks ++ [k]) = raise (marks ks) k := by
  simp [marks]

variable {ks : List (κ × ν)}

theorem exists_greatest {a : κ} {m : ν} (hm : (a, m) ∈ ks) :
    ∃ n, (a, n) ∈ ks ∧ ∀ i, (a, i) ∈ ks → i ≤ n := by
  obtain ⟨top, htop, hmost⟩ := (ks.filter (·.1 = a)).toFinset.exists_max_image Prod.snd
    ⟨(a, m), by simpa using hm⟩
  simp only [List.mem_toFinset, List.mem_filter, decide_eq_true_eq] at htop hmost
  refine ⟨top.2, ?_, fun i hi => hmost (a, i) ⟨hi, rfl⟩⟩
  rw [← htop.2]
  exact htop.1

theorem get?_marks {a : κ} {n : ν} :
    (marks ks).get? a = some n ↔ (a, n) ∈ ks ∧ ∀ m, (a, m) ∈ ks → m ≤ n := by
  induction ks using List.reverseRecOn generalizing n with
  | nil => simp
  | append_singleton ks k ih =>
    obtain ⟨b, j⟩ := k
    have hnone : (marks ks).get? a = none → ∀ m, (a, m) ∉ ks := by
      -- the greatest of the numbers seen of `a` would be its mark
      intro hnone m hm
      obtain ⟨top, htop⟩ := exists_greatest hm
      rw [ih.mpr htop] at hnone
      cases hnone
    rw [marks_append_singleton, raise]
    by_cases hab : a = b
    · subst hab
      cases hget : (marks ks).get? a with
      | none =>
        have hadmits : Admits (marks ks) (a, j) := by simp [Admits, hget]
        rw [if_pos hadmits, Dict.get?_set_self]
        have hunseen := hnone hget
        simp only [List.mem_append, List.mem_singleton, Prod.mk.injEq, true_and, hunseen,
          false_or, Option.some.injEq]
        constructor
        · rintro rfl
          exact ⟨rfl, fun m hm => hm.le⟩
        · exact fun h => h.1.symm
      | some last =>
        obtain ⟨hlast, hmost⟩ := ih.mp hget
        by_cases hj : last < j
        · have hadmits : Admits (marks ks) (a, j) := by simpa [Admits, hget] using hj
          rw [if_pos hadmits, Dict.get?_set_self]
          simp only [List.mem_append, List.mem_singleton, Prod.mk.injEq, true_and,
            Option.some.injEq]
          constructor
          · rintro rfl
            refine ⟨Or.inr rfl, ?_⟩
            rintro m (hm | rfl)
            · exact ((hmost m hm).trans_lt hj).le
            · exact le_rfl
          · rintro ⟨hn | hn, hall⟩
            · exact absurd (hall j (Or.inr rfl)) (not_le.mpr ((hmost n hn).trans_lt hj))
            · exact hn.symm
        · have hadmits : ¬ Admits (marks ks) (a, j) := by simpa [Admits, hget] using hj
          rw [if_neg hadmits, hget]
          simp only [List.mem_append, List.mem_singleton, Prod.mk.injEq, true_and,
            Option.some.injEq]
          constructor
          · rintro rfl
            refine ⟨Or.inl hlast, ?_⟩
            rintro m (hm | rfl)
            · exact hmost m hm
            · exact not_lt.mp hj
          · rintro ⟨hn, hall⟩
            refine le_antisymm (hall last (Or.inl hlast)) ?_
            rcases hn with hn | rfl
            · exact hmost n hn
            · exact not_lt.mp hj
    · have hother : (if Admits (marks ks) (b, j) then (marks ks).set b j else marks ks).get? a =
          (marks ks).get? a := by
        split_ifs
        · exact Dict.get?_set_of_ne _ _ hab
        · rfl
      rw [hother, ih]
      simp [hab]

theorem admits_marks {k : κ × ν} :
    Admits (marks ks) k ↔ ∀ m, (k.1, m) ∈ ks → m < k.2 := by
  constructor
  · intro h m hm
    cases hget : (marks ks).get? k.1 with
    | none =>
      obtain ⟨top, htop⟩ := exists_greatest hm
      rw [get?_marks.mpr htop] at hget
      cases hget
    | some last => exact ((get?_marks.mp hget).2 m hm).trans_lt (h last hget)
  · intro h last hlast
    exact h last (get?_marks.mp hlast).1

theorem notMem_of_admits {k : κ × ν} (h : Admits (marks ks) k) : k ∉ ks :=
  fun hk => lt_irrefl k.2 (admits_marks.mp h k.2 hk)

/-- The numbers of each key first appear in increasing order. -/
def FirstsAscend (ks : List (κ × ν)) : Prop :=
  ∀ pre k post, ks = pre ++ k :: post → k ∉ pre → ∀ m, (k.1, m) ∈ pre → m < k.2

/-- **A high-water mark lets everything new through** exactly when the numbers of each key
    first appear in increasing order. -/
theorem firstsAscend_iff :
    FirstsAscend ks ↔
      ∀ pre k post, ks = pre ++ k :: post → k ∉ pre → Admits (marks pre) k := by
  simp only [FirstsAscend, admits_marks]

theorem firstsAscend_iff_take :
    FirstsAscend ks ↔ ∀ i : Fin ks.length,
      ks.get i ∈ ks.take i ∨ ∀ k ∈ ks.take i, k.1 = (ks.get i).1 → k.2 < (ks.get i).2 := by
  constructor
  · intro h i
    by_cases hmem : ks.get i ∈ ks.take i
    · exact Or.inl hmem
    · right
      rintro ⟨a, m⟩ hm rfl
      refine h (ks.take i) (ks.get i) (ks.drop (i + 1)) ?_ hmem m hm
      rw [List.get_eq_getElem, ← List.drop_eq_getElem_cons, List.take_append_drop]
  · rintro h pre k post rfl hnew m hm
    have hi : pre.length < (pre ++ k :: post).length := by simp
    rcases h ⟨pre.length, hi⟩ with hmem | hall
    · simp [hnew] at hmem
    · simpa using hall (k.1, m) (by simpa using hm)

instance : DecidablePred (FirstsAscend : List (κ × ν) → Prop) :=
  fun _ => decidable_of_iff _ firstsAscend_iff_take.symm

end Watermark
