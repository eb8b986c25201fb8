/-
  Lists with their positions, where one list is followed by the image of another.

  `mapped_zipIdx`: the positions of an image are those of the entries; `forall_zipIdx_append_map` and
  `sum_zipIdx_append_map` read what holds of, or is summed over, both parts.
-/
import Mathlib.Algebra.BigOperators.Group.List.Basic
import Mathlib.Data.List.Nodup
import Mathlib.Tactic.Basic

namespace Positions

variable {α β M : Type*} [DecidableEq α]

variable (A : List β) (f : α → β)

theorem mapped_zipIdx {l : List α} (hl : l.Nodup) (k : ℕ) :
    (l.map f).zipIdx k = l.map fun a => (f a, k + l.idxOf a) := by
  induction l generalizing k with
  | nil => rfl
  | cons a l ih =>
    obtain ⟨ha, hl⟩ := List.nodup_cons.mp hl
    simp only [List.map_cons, List.zipIdx_cons, List.idxOf_cons_self, Nat.add_zero, ih hl]
    refine congrArg _ (List.map_congr_left ?_)
    intro b hb
    have hne : a ≠ b := fun h => ha (h ▸ hb)
    rw [List.idxOf_cons_ne l hne, Nat.succ_eq_add_one]
    congr 1
    omega

theorem append_map_zipIdx {l : List α} (hl : l.Nodup) :
    (A ++ l.map f).zipIdx = A.zipIdx ++ l.map fun a => (f a, A.length + l.idxOf a) := by
  rw [List.zipIdx_append, mapped_zipIdx f hl, Nat.zero_add]

theorem forall_zipIdx_append_map {l : List α} (hl : l.Nodup) (P : β × ℕ → Prop) :
    (∀ c ∈ (A ++ l.map f).zipIdx, P c) ↔
      (∀ c ∈ A.zipIdx, P c) ∧ ∀ a ∈ l, P (f a, A.length + l.idxOf a) := by
  rw [append_map_zipIdx A f hl]
  simp only [List.forall_mem_append, List.forall_mem_map]

theorem sum_zipIdx_append_map [AddMonoid M] {l : List α} (hl : l.Nodup) (g : β × ℕ → M) :
    ((A ++ l.map f).zipIdx.map g).sum =
      (A.zipIdx.map g).sum + (l.map fun a => g (f a, A.length + l.idxOf a)).sum := by
  rw [append_map_zipIdx A f hl, List.map_append, List.sum_append, List.map_map]
  rfl

end Positions
