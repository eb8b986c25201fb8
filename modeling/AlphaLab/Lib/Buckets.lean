/-
  An index of members by bucket: dimension, label, members.

  * `Carries index d l a`: `a` is a member of the bucket `l` of the dimension `d`.
  * `Tidy`: no bucket and no dimension of an index is empty; tidy indexes that carry the same
    members are the same as maps (`Tidy.same`).
-/
import AlphaLab.Lib.Dict

namespace Buckets

variable {δ lbl α : Type} [DecidableEq δ] [DecidableEq lbl] [DecidableEq α]

abbrev Labels (lbl α : Type) := Dict lbl (Dict α Unit)

abbrev Index (δ lbl α : Type) := Dict δ (Labels lbl α)

/-- `a` is in the bucket `l`. -/
def Holds (labels : Labels lbl α) (l : lbl) (a : α) : Prop :=
  ∃ held, labels.get? l = some held ∧ held.get? a = some ()

/-- `a` is in the bucket `l` of the dimension `d`. -/
def Carries (index : Index δ lbl α) (d : δ) (l : lbl) (a : α) : Prop :=
  ∃ labels, index.get? d = some labels ∧ Holds labels l a

def Filled (labels : Labels lbl α) : Prop :=
  ∀ l held, labels.get? l = some held → ∃ a, held.get? a = some ()

def Tidy (index : Index δ lbl α) : Prop :=
  ∀ d labels, index.get? d = some labels → Filled labels ∧ ∃ l a, Holds labels l a

def Same (i j : Index δ lbl α) : Prop :=
  ∀ d, Option.Rel (fun x y : Labels lbl α => ∀ l, Option.Rel (fun p q : Dict α Unit =>
    ∀ a, p.get? a = q.get? a) (x.get? l) (y.get? l)) (i.get? d) (j.get? d)

/-- `a` is put in the bucket `l` of the dimension `d`, made where there is none. -/
def add (index : Index δ lbl α) (d : δ) (l : lbl) (a : α) : Index δ lbl α :=
  let labels := (index.get? d).getD .empty
  index.set d (labels.set l (((labels.get? l).getD .empty).set a ()))

section
variable {index i j : Index δ lbl α} {labels x y : Labels lbl α} {d d' : δ} {l l' : lbl} {a a' : α}

@[simp] theorem holds_empty : ¬ Holds (.empty : Labels lbl α) l a := by
  rintro ⟨held, hheld, -⟩
  cases hheld

@[simp] theorem carries_empty : ¬ Carries (.empty : Index δ lbl α) d l a := by
  rintro ⟨labels, hlabels, -⟩
  cases hlabels

theorem filled_empty : Filled (.empty : Labels lbl α) := fun _ _ h => nomatch h

theorem tidy_empty : Tidy (.empty : Index δ lbl α) := fun _ _ h => nomatch h

theorem holds_getD : Holds ((index.get? d).getD .empty) l a ↔ Carries index d l a := by
  unfold Carries
  cases index.get? d with
  | none => simp
  | some labels => simp

theorem Tidy.filled_getD (h : Tidy index) : Filled ((index.get? d).getD .empty) := by
  cases hlabels : index.get? d with
  | none => exact filled_empty
  | some labels => exact (h d labels hlabels).1

theorem holds_set : Holds (labels.set l (((labels.get? l).getD .empty).set a ())) l' a' ↔
    Holds labels l' a' ∨ l' = l ∧ a' = a := by
  unfold Holds
  by_cases hl : l' = l
  · subst hl
    rw [Dict.get?_set_self]
    simp only [Option.some.injEq, exists_eq_left', Dict.get?_set, true_and]
    by_cases ha : a' = a
    · simp [ha]
    · cases labels.get? l' with
      | none => simp [ha]
      | some held => simp [ha]
  · rw [Dict.get?_set_of_ne _ _ hl]
    simp [hl]

theorem Filled.set (h : Filled labels) :
    Filled (labels.set l (((labels.get? l).getD .empty).set a ())) := by
  intro l' held hheld
  rw [Dict.get?_set] at hheld
  split_ifs at hheld with hl
  · obtain rfl := Option.some.inj hheld
    exact ⟨a, Dict.get?_set_self _ _ _⟩
  · exact h l' held hheld

theorem holds_remove {held : Dict α Unit} (hheld : labels.get? l = some held) :
    Holds (if (held.delete a).entries ≠ [] then labels.set l (held.delete a) else labels.delete l)
      l' a' ↔ Holds labels l' a' ∧ ¬ (l' = l ∧ a' = a) := by
  unfold Holds
  by_cases hl : l' = l
  · subst hl
    have hother : (held.delete a).get? a' = some () ↔ held.get? a' = some () ∧ a' ≠ a := by
      rw [Dict.get?_delete]
      split_ifs with ha
      · simp [ha]
      · simp [ha]
    split_ifs with hempty
    · simp [hheld, hother]
    · -- an emptied bucket held nothing else
      have hnone : ¬ (held.get? a' = some () ∧ a' ≠ a) := by
        rw [← hother, Dict.get?_eq_some, not_not.mp hempty]
        exact List.not_mem_nil
      simpa [hheld] using fun h => not_and_not_right.mp hnone h
  · split_ifs with hempty
    · rw [Dict.get?_set_of_ne _ _ hl]
      simp [hl]
    · rw [Dict.get?_delete, if_neg hl]
      simp [hl]

theorem Filled.remove {held : Dict α Unit} (h : Filled labels) : Filled
    (if (held.delete a).entries ≠ [] then labels.set l (held.delete a) else labels.delete l) := by
  intro l' bucket hbucket
  split_ifs at hbucket with hempty
  · rw [Dict.get?_set] at hbucket
    split_ifs at hbucket with hl
    · obtain rfl := Option.some.inj hbucket
      obtain ⟨e, he⟩ := List.exists_mem_of_ne_nil _ hempty
      exact ⟨e.1, (Dict.get?_eq_some _).mpr he⟩
    · exact h l' bucket hbucket
  · rw [Dict.get?_delete] at hbucket
    split_ifs at hbucket with hl
    exact h l' bucket hbucket

/-! ## Every dimension -/

theorem carries_set : Carries (index.set d x) d' l a ↔
    if d' = d then Holds x l a else Carries index d' l a := by
  unfold Carries
  rw [Dict.get?_set]
  split_ifs
  · simp
  · rfl

theorem carries_delete : Carries (index.delete d) d' l a ↔ d' ≠ d ∧ Carries index d' l a := by
  unfold Carries
  rw [Dict.get?_delete]
  split_ifs with hd
  · simp [hd]
  · simp [hd]

theorem Tidy.set (h : Tidy index) (hx : Filled x) (hsome : x.entries ≠ []) :
    Tidy (index.set d x) := by
  intro d' labels hlabels
  rw [Dict.get?_set] at hlabels
  split_ifs at hlabels with hd
  · obtain rfl := Option.some.inj hlabels
    obtain ⟨e, he⟩ := List.exists_mem_of_ne_nil _ hsome
    have hbucket := (Dict.get?_eq_some _).mpr he
    obtain ⟨a, ha⟩ := hx e.1 e.2 hbucket
    exact ⟨hx, e.1, a, e.2, hbucket, ha⟩
  · exact h d' labels hlabels

theorem Tidy.delete (h : Tidy index) : Tidy (index.delete d) := by
  intro d' labels hlabels
  rw [Dict.get?_delete] at hlabels
  split_ifs at hlabels with hd
  exact h d' labels hlabels

theorem carries_add : Carries (add index d l a) d' l' a' ↔
    Carries index d' l' a' ∨ d' = d ∧ l' = l ∧ a' = a := by
  rw [add, carries_set]
  split_ifs with hd
  · subst hd
    rw [holds_set, holds_getD]
    simp
  · simp [hd]

theorem Tidy.add (h : Tidy index) : Tidy (add index d l a) := by
  refine h.set h.filled_getD.set ?_
  intro hnil
  have hself := Dict.get?_set_self ((index.get? d).getD .empty) l
    (((((index.get? d).getD .empty).get? l).getD .empty).set a ())
  rw [Dict.get?_eq_some, hnil] at hself
  cases hself

theorem carries_foldl {β : Type} {step : Index δ lbl α → β → Index δ lbl α}
    {P : β → δ → lbl → α → Prop}
    (hstep : ∀ index e d l a, Carries (step index e) d l a ↔ Carries index d l a ∨ P e d l a)
    (entries : List β) : Carries (entries.foldl step index) d l a ↔
      Carries index d l a ∨ ∃ e ∈ entries, P e d l a := by
  induction entries generalizing index with
  | nil => simp
  | cons e entries ih =>
    rw [List.foldl_cons, ih, hstep]
    simp only [List.mem_cons, exists_eq_or_imp, or_assoc]

theorem Tidy.foldl {β : Type} {step : Index δ lbl α → β → Index δ lbl α}
    (hstep : ∀ index e, Tidy index → Tidy (step index e)) (h : Tidy index) (entries : List β) :
    Tidy (entries.foldl step index) := by
  induction entries generalizing index with
  | nil => exact h
  | cons e entries ih => exact ih (hstep index e h)

/-- **Tidy indexes that carry the same members are the same.** -/
theorem Tidy.same (hi : Tidy i) (hj : Tidy j)
    (h : ∀ d l a, Carries i d l a ↔ Carries j d l a) : Same i j := by
  have hunits : ∀ {p q : Dict α Unit}, (∀ a, p.get? a = some () ↔ q.get? a = some ()) →
      ∀ a, p.get? a = q.get? a := fun hpq a => Option.ext fun _ => hpq a
  intro d
  cases hx : i.get? d with
  | none =>
    cases hy : j.get? d with
    | none => exact .none
    | some y =>
      obtain ⟨-, l, a, hla⟩ := hj d y hy
      obtain ⟨x, hx', -⟩ := (h d l a).mpr ⟨y, hy, hla⟩
      rw [hx] at hx'
      cases hx'
  | some x =>
    cases hy : j.get? d with
    | none =>
      obtain ⟨-, l, a, hla⟩ := hi d x hx
      obtain ⟨y, hy', -⟩ := (h d l a).mp ⟨x, hx, hla⟩
      rw [hy] at hy'
      cases hy'
    | some y =>
      refine .some fun l => ?_
      have hholds : ∀ l a, Holds x l a ↔ Holds y l a := by
        intro l a
        have hd := h d l a
        simpa only [Carries, hx, hy, Option.some.injEq, exists_eq_left'] using hd
      cases hp : x.get? l with
      | none =>
        cases hq : y.get? l with
        | none => exact .none
        | some q =>
          obtain ⟨a, ha⟩ := (hj d y hy).1 l q hq
          obtain ⟨p, hp', -⟩ := (hholds l a).mpr ⟨q, hq, ha⟩
          rw [hp] at hp'
          cases hp'
      | some p =>
        cases hq : y.get? l with
        | none =>
          obtain ⟨a, ha⟩ := (hi d x hx).1 l p hp
          obtain ⟨q, hq', -⟩ := (hholds l a).mp ⟨p, hp, ha⟩
          rw [hq] at hq'
          cases hq'
        | some q =>
          refine .some (hunits fun a => ?_)
          have hla := hholds l a
          simpa only [Holds, hp, hq, Option.some.injEq, exists_eq_left'] using hla

end

end Buckets
