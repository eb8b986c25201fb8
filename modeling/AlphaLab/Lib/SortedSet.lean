/-
  Finite sets kept as strictly increasing lists.

  `SortedSet α` is what `tuple(sorted(set(xs)))` builds: each member once, in
  order.  Two of them with the same members are equal (`ext_mem`).
-/
import Mathlib.Data.String.Basic
import Mathlib.Order.Defs.LinearOrder
import Mathlib.Data.List.Sort
import Mathlib.Tactic

structure SortedSet (α : Type*) [LinearOrder α] where
  members : List α
  sorted : members.Pairwise (· < ·)
deriving DecidableEq

namespace SortedSet

variable {α : Type*} [LinearOrder α]

@[ext] theorem ext {s t : SortedSet α} (h : s.members = t.members) : s = t := by
  cases s
  cases t
  simpa using h

instance : Membership α (SortedSet α) := ⟨fun s a => a ∈ s.members⟩

theorem mem_def {s : SortedSet α} {a : α} : a ∈ s ↔ a ∈ s.members := Iff.rfl

instance (s : SortedSet α) (a : α) : Decidable (a ∈ s) :=
  inferInstanceAs (Decidable (a ∈ s.members))

def empty : SortedSet α := ⟨[], .nil⟩

/-- `a` put in its place in a strictly increasing list. -/
def insertList (a : α) : List α → List α
  | [] => [a]
  | b :: l => if a < b then a :: b :: l else if b < a then b :: insertList a l else b :: l

theorem mem_insertList {a b : α} {l : List α} : b ∈ insertList a l ↔ b = a ∨ b ∈ l := by
  induction l with
  | nil => simp [insertList]
  | cons c l ih =>
    rcases lt_trichotomy a c with h | rfl | h
    · simp [insertList, h]
    · simp [insertList]
    · simp only [insertList, if_neg h.not_gt, if_pos h, List.mem_cons, ih]
      tauto

theorem sorted_insertList (a : α) {l : List α} (hl : l.Pairwise (· < ·)) :
    (insertList a l).Pairwise (· < ·) := by
  induction l with
  | nil => simp [insertList]
  | cons c l ih =>
    obtain ⟨hc, ht⟩ := List.pairwise_cons.mp hl
    rcases lt_trichotomy a c with h | rfl | h
    · rw [insertList, if_pos h]
      refine List.pairwise_cons.mpr ⟨fun b hb => ?_, hl⟩
      rcases List.mem_cons.mp hb with rfl | hb
      exacts [h, h.trans (hc b hb)]
    · simpa [insertList] using hl
    · rw [insertList, if_neg h.not_gt, if_pos h]
      refine List.pairwise_cons.mpr ⟨fun b hb => ?_, ih ht⟩
      rcases mem_insertList.mp hb with rfl | hb
      exacts [h, hc b hb]

/-- `s` with `a`. -/
def insert (s : SortedSet α) (a : α) : SortedSet α :=
  ⟨insertList a s.members, sorted_insertList a s.sorted⟩

/-- `s` without the members `p` holds of. -/
def remove (s : SortedSet α) (p : α → Bool) : SortedSet α :=
  ⟨s.members.filter (!p ·), s.sorted.sublist List.filter_sublist⟩

/-- The members of a list, in order and once each: `sorted(set(l))`. -/
def ofList (l : List α) : SortedSet α := l.foldr (fun a s => s.insert a) empty

@[simp] theorem not_mem_empty (a : α) : a ∉ (empty : SortedSet α) := List.not_mem_nil

@[simp] theorem mem_insert {s : SortedSet α} {a b : α} : b ∈ s.insert a ↔ b = a ∨ b ∈ s :=
  mem_insertList

@[simp] theorem mem_remove {s : SortedSet α} {p : α → Bool} {a : α} :
    a ∈ s.remove p ↔ a ∈ s ∧ p a = false := by
  simp [remove, mem_def]

@[simp] theorem mem_ofList {l : List α} {a : α} : a ∈ ofList l ↔ a ∈ l := by
  induction l with
  | nil => simp [ofList]
  | cons b l ih => simpa [ofList] using or_congr_right ih

theorem ext_mem {s t : SortedSet α} (h : ∀ a, a ∈ s ↔ a ∈ t) : s = t := by
  apply ext
  have hs : s.members.Nodup := s.sorted.imp ne_of_lt
  have ht : t.members.Nodup := t.sorted.imp ne_of_lt
  exact ((List.perm_ext_iff_of_nodup hs ht).mpr h).eq_of_pairwise
    (fun a b _ _ hab hba => absurd hba hab.not_gt) s.sorted t.sorted

@[simp] theorem ofList_members (s : SortedSet α) : ofList s.members = s :=
  ext_mem fun _ => mem_ofList

end SortedSet
