/-
  Sorting a list by a key.

  `sortBy key l` is stable.  Where no two entries share a key the sorted list depends on the
  members alone (`sortBy_eq_of_mem_iff`), and sorting goes past filtering
  (`filter_sortBy`); what is at or below a bound comes first (`takeWhile_eq_filter`).
-/
import Mathlib.Data.List.Sort
import Mathlib.Data.Prod.Lex
import Mathlib.Data.List.Lex
import Mathlib.Tactic

namespace Fallible

variable {α κ : Type}

/-- `sorted(l, key=key)` -/
def sortBy [LinearOrder κ] (key : α → κ) (l : List α) : List α := l.insertionSort fun a b => key a ≤ key b

def Keyed (key : α → κ) (l : List α) : Prop := (l.map key).Nodup

section
variable {key : α → κ} {l l' : List α}

theorem Keyed.nodup (h : Keyed key l) : l.Nodup := h.of_map key

theorem Keyed.eq (h : Keyed key l) {a b : α} (ha : a ∈ l) (hb : b ∈ l) (hkey : key a = key b) :
    a = b := List.inj_on_of_nodup_map h ha hb hkey

theorem Keyed.sublist (h : Keyed key l) (hsub : List.Sublist l' l) : Keyed key l' :=
  (hsub.map key).nodup h

theorem Keyed.perm (h : Keyed key l) (hperm : l.Perm l') : Keyed key l' :=
  (hperm.map key).nodup_iff.mp h

variable [LinearOrder κ]

theorem sortBy_perm (key : α → κ) (l : List α) : (sortBy key l).Perm l := List.perm_insertionSort _ l

@[simp] theorem mem_sortBy {a : α} : a ∈ sortBy key l ↔ a ∈ l := (sortBy_perm key l).mem_iff

@[simp] theorem length_sortBy : (sortBy key l).length = l.length := (sortBy_perm key l).length_eq

theorem sortBy_sorted (key : α → κ) (l : List α) :
    (sortBy key l).Pairwise fun a b => key a ≤ key b := by
  have : IsTrans α fun a b => key a ≤ key b := ⟨fun _ _ _ => le_trans⟩
  have : Std.Total fun a b : α => key a ≤ key b := ⟨fun a b => le_total _ _⟩
  exact List.pairwise_insertionSort _ l

theorem sortBy_lex_sorted {κ' : Type} [LinearOrder κ'] (f : α → κ) (g : α → κ') (l : List α) :
    (sortBy (fun a => toLex (f a, g a)) l).Pairwise fun a b => f a ≤ f b := by
  refine (sortBy_sorted (fun a => toLex (f a, g a)) l).imp fun {a b} hab => ?_
  rcases Prod.Lex.le_iff.mp hab with hlt | ⟨heq, -⟩
  · exact le_of_lt hlt
  · exact le_of_eq heq

/-- **Two lists in order with the same members are one**, where no two share a key. -/
theorem eq_of_sorted (hkeyed : Keyed key l) (hperm : l.Perm l')
    (h : l.Pairwise fun a b => key a ≤ key b) (h' : l'.Pairwise fun a b => key a ≤ key b) :
    l = l' :=
  hperm.eq_of_pairwise (fun _ _ ha hb hab hba =>
    hkeyed.eq ha (hperm.mem_iff.mpr hb) (le_antisymm hab hba)) h h'

theorem sortBy_eq_of_perm (hkeyed : Keyed key l) (hperm : l.Perm l') :
    sortBy key l = sortBy key l' :=
  eq_of_sorted (hkeyed.perm (sortBy_perm key l).symm)
    ((sortBy_perm key l).trans (hperm.trans (sortBy_perm key l').symm))
    (sortBy_sorted key l) (sortBy_sorted key l')

theorem sortBy_eq_of_mem_iff (hkeyed : Keyed key l) (hkeyed' : Keyed key l')
    (h : ∀ a, a ∈ l ↔ a ∈ l') : sortBy key l = sortBy key l' :=
  sortBy_eq_of_perm hkeyed ((List.perm_ext_iff_of_nodup hkeyed.nodup hkeyed'.nodup).mpr h)

/-- **The greatest entry is the last of the sort.** -/
theorem getLast?_sortBy (hinj : ∀ a ∈ l, ∀ b ∈ l, key a = key b → a = b) {a : α} (ha : a ∈ l)
    (hmost : ∀ b ∈ l, key b ≤ key a) : (sortBy key l).getLast? = some a := by
  have hmem : a ∈ sortBy key l := mem_sortBy.mpr ha
  obtain ⟨front, last, hlast⟩ := (List.eq_nil_or_concat (sortBy key l)).resolve_left
    (List.ne_nil_of_mem hmem)
  have hin : last ∈ sortBy key l := by simp [hlast]
  have hsorted := sortBy_sorted key l
  rw [hlast, List.concat_eq_append] at hmem hsorted ⊢
  rw [List.getLast?_append_of_ne_nil _ (by simp), List.getLast?_singleton]
  rcases List.mem_append.mp hmem with hfront | hself
  · have hle : key a ≤ key last := (List.pairwise_append.mp hsorted).2.2 a hfront last (by simp)
    have hin := mem_sortBy.mp hin
    rw [hinj last hin a ha (le_antisymm (hmost last hin) hle)]
  · rw [List.mem_singleton.mp hself]

theorem filter_sortBy (hkeyed : Keyed key l) (p : α → Bool) :
    (sortBy key l).filter p = sortBy key (l.filter p) :=
  eq_of_sorted ((hkeyed.perm (sortBy_perm key l).symm).sublist List.filter_sublist)
    (((sortBy_perm key l).filter p).trans (sortBy_perm key _).symm)
    ((sortBy_sorted key l).sublist List.filter_sublist) (sortBy_sorted key _)

end

theorem takeWhile_eq_filter [LinearOrder κ] {f : α → κ} {bound : κ} {l : List α}
    (h : l.Pairwise fun a b => f a ≤ f b) :
    l.takeWhile (fun a => f a ≤ bound) = l.filter fun a => f a ≤ bound := by
  induction l with
  | nil => rfl
  | cons a l ih =>
    rw [List.pairwise_cons] at h
    by_cases ha : f a ≤ bound
    · rw [List.takeWhile_cons_of_pos (by simpa using ha), List.filter_cons_of_pos (by simpa using ha),
        ih h.2]
    · rw [List.takeWhile_cons_of_neg (by simpa using ha), List.filter_cons_of_neg (by simpa using ha)]
      refine (List.filter_eq_nil_iff.mpr fun b hb => ?_).symm
      have hab := h.1 b hb
      simp only [decide_eq_true_eq, not_le] at ha ⊢
      exact ha.trans_le hab

theorem find?_sorted_iff [LinearOrder α] {p : α → Bool} {l : List α} {a : α} :
    (sortBy id l).find? p = some a ↔ a ∈ l ∧ p a ∧ ∀ b ∈ l, p b → a ≤ b := by
  have hfound : ∀ {b}, (sortBy id l).find? p = some b → b ∈ l ∧ p b ∧ ∀ c ∈ l, p c → b ≤ c := by
    intro b hb
    obtain ⟨hp, before, after, hsplit, hbefore⟩ := List.find?_eq_some_iff_append.mp hb
    refine ⟨mem_sortBy.mp (List.mem_of_find?_eq_some hb), hp, fun c hc hpc => ?_⟩
    have hsorted : (sortBy id l).Pairwise fun a b => a ≤ b := sortBy_sorted id l
    rw [hsplit, List.pairwise_append, List.pairwise_cons] at hsorted
    have hmem : c ∈ before ++ b :: after := hsplit ▸ (mem_sortBy (κ := α)).mpr hc
    rcases List.mem_append.mp hmem with hc | hc
    · have := hbefore c hc
      simp [hpc] at this
    · rcases List.mem_cons.mp hc with rfl | hc
      · exact le_rfl
      · exact hsorted.2.1.1 c hc
  refine ⟨hfound, ?_⟩
  rintro ⟨ha, hp, hleast⟩
  obtain ⟨b, hb⟩ := Option.isSome_iff_exists.mp
    (List.find?_isSome.mpr ⟨a, (mem_sortBy (κ := α)).mpr ha, hp⟩)
  obtain ⟨hbl, hpb, hb'⟩ := hfound hb
  rw [hb, le_antisymm (hb' a ha hp) (hleast b hbl hpb)]

end Fallible
