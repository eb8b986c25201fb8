/-
  Entries joined into one text, and what of them the text tells.

  * `entryText` writes a key and a value with a sign between them, `sectioned` two lists of
    entries, each under a heading; the lines are joined by a separator;
  * `sectioned_of_lengths`: texts cut at the same places have the same entries;
  * `sectioned_injective`: so do texts of entries that hold no separator, and no sign in a key.
-/
import Mathlib.Data.List.Basic
import Mathlib.Tactic.Common

namespace Joined

variable {α : Type*}

/-- What stands before and after the first `c` of a text. -/
theorem split_unique {c : α} {a b r s : List α} (ha : c ∉ a) (hb : c ∉ b)
    (h : a ++ c :: r = b ++ c :: s) : a = b ∧ r = s := by
  induction a generalizing b with
  | nil =>
    cases b with
    | nil => exact ⟨rfl, (List.cons.inj h).2⟩
    | cons y b => exact absurd (List.mem_cons.mpr (Or.inl (List.cons.inj h).1)) hb
  | cons x a ih =>
    cases b with
    | nil => exact absurd (List.mem_cons.mpr (Or.inl (List.cons.inj h).1.symm)) ha
    | cons y b =>
      obtain ⟨rfl, htail⟩ := List.cons.inj h
      obtain ⟨rfl, rfl⟩ := ih (fun hc => ha (List.mem_cons_of_mem _ hc))
        (fun hc => hb (List.mem_cons_of_mem _ hc)) htail
      exact ⟨rfl, rfl⟩

theorem intercalate_injective {c : α} {l l' : List (List α)} (hl : ∀ x ∈ l, c ∉ x)
    (hl' : ∀ x ∈ l', c ∉ x) (hne : l ≠ []) (hne' : l' ≠ [])
    (h : [c].intercalate l = [c].intercalate l') : l = l' := by
  induction l generalizing l' with
  | nil => exact absurd rfl hne
  | cons x l ih =>
    obtain ⟨y, m, rfl⟩ := List.exists_cons_of_ne_nil hne'
    have hx := hl x (List.mem_cons_self)
    have hy := hl' y (List.mem_cons_self)
    cases l with
    | nil =>
      cases m with
      | nil => simpa using h
      | cons z m =>
        rw [List.intercalate_singleton, List.intercalate_cons_cons] at h
        exact absurd (h ▸ by simp : c ∈ x) hx
    | cons w l =>
      cases m with
      | nil =>
        rw [List.intercalate_singleton, List.intercalate_cons_cons] at h
        exact absurd (h ▸ by simp : c ∈ y) hy
      | cons z m =>
        rw [List.intercalate_cons_cons, List.intercalate_cons_cons, List.append_assoc,
          List.append_assoc, List.singleton_append, List.singleton_append] at h
        obtain ⟨rfl, hrest⟩ := split_unique hx hy h
        rw [ih (fun a ha => hl a (List.mem_cons_of_mem _ ha))
          (fun a ha => hl' a (List.mem_cons_of_mem _ ha)) (by simp) (by simp) hrest]

/-! ## Entries -/

variable (sep sign : α)

def entryText (e : List α × List α) : List α := e.1 ++ sign :: e.2

def sectioned (first second : List α) (l m : List (List α × List α)) : List (List α) :=
  first :: l.map (entryText sign) ++ second :: m.map (entryText sign)

def lengths (l : List (List α × List α)) : List (ℕ × ℕ) := l.map fun e => (e.1.length, e.2.length)

/-- An entry without separators, and without a sign in its key. -/
def Plain (e : List α × List α) : Prop := sign ∉ e.1 ∧ sep ∉ e.1 ∧ sep ∉ e.2

variable {sep sign} {first second : List α} {l m l' m' : List (List α × List α)}

theorem entryText_of_length {e e' : List α × List α} {r r' : List α}
    (hkey : e.1.length = e'.1.length) (hvalue : e.2.length = e'.2.length)
    (h : entryText sign e ++ r = entryText sign e' ++ r') : e = e' ∧ r = r' := by
  simp only [entryText, List.append_assoc, List.cons_append] at h
  obtain ⟨hk, hrest⟩ := List.append_inj h hkey
  obtain ⟨hv, hr⟩ := List.append_inj (List.cons.inj hrest).2 hvalue
  exact ⟨Prod.ext hk hv, hr⟩

theorem intercalate_cons (x : List α) (l : List (List α)) :
    [sep].intercalate (x :: l) = x ++ l.flatMap (sep :: ·) := by
  induction l generalizing x with
  | nil => simp
  | cons y l ih => rw [List.intercalate_cons_cons, ih, List.flatMap_cons]; simp

theorem entries_of_lengths {r r' : List α} (hlengths : lengths l = lengths l')
    (h : (l.map (entryText sign)).flatMap (sep :: ·) ++ r =
      (l'.map (entryText sign)).flatMap (sep :: ·) ++ r') : l = l' ∧ r = r' := by
  induction l generalizing l' with
  | nil =>
    obtain rfl : l' = [] := by simpa [lengths] using hlengths.symm
    exact ⟨rfl, h⟩
  | cons e l ih =>
    cases l' with
    | nil => exact absurd hlengths (by simp [lengths])
    | cons e' l' =>
      simp only [lengths, List.map_cons, List.cons.injEq, Prod.mk.injEq] at hlengths
      simp only [List.map_cons, List.flatMap_cons, List.cons_append, List.append_assoc] at h
      obtain ⟨rfl, hrest⟩ := entryText_of_length hlengths.1.1 hlengths.1.2 (List.cons.inj h).2
      obtain ⟨rfl, rfl⟩ := ih hlengths.2 hrest
      exact ⟨rfl, rfl⟩

/-- **Texts cut at the same places** have the same entries. -/
theorem sectioned_of_lengths (hl : lengths l = lengths l') (hm : lengths m = lengths m')
    (h : [sep].intercalate (sectioned sign first second l m) =
      [sep].intercalate (sectioned sign first second l' m')) : l = l' ∧ m = m' := by
  simp only [sectioned, List.cons_append, intercalate_cons, List.flatMap_append,
    List.flatMap_cons] at h
  obtain ⟨rfl, hrest⟩ := entries_of_lengths hl (List.append_cancel_left h)
  have hlast : (m.map (entryText sign)).flatMap (sep :: ·) ++ [] =
      (m'.map (entryText sign)).flatMap (sep :: ·) ++ [] := by
    simpa using List.append_cancel_left (List.cons.inj hrest).2
  obtain ⟨rfl, -⟩ := entries_of_lengths hm hlast
  exact ⟨rfl, rfl⟩

theorem entryText_injective {e e' : List α × List α} (he : Plain sep sign e)
    (he' : Plain sep sign e') (h : entryText sign e = entryText sign e') : e = e' := by
  obtain ⟨hk, hv⟩ := split_unique he.1 he'.1 h
  exact Prod.ext hk hv

theorem entriesText_injective (hl : ∀ e ∈ l, Plain sep sign e) (hl' : ∀ e ∈ l', Plain sep sign e)
    (h : l.map (entryText sign) = l'.map (entryText sign)) : l = l' := by
  induction l generalizing l' with
  | nil => simpa [eq_comm] using h
  | cons e l ih =>
    cases l' with
    | nil => exact absurd h (by simp)
    | cons e' l' =>
      obtain ⟨hhead, htail⟩ := List.cons.inj h
      rw [entryText_injective (hl e List.mem_cons_self) (hl' e' List.mem_cons_self) hhead,
        ih (fun a ha => hl a (List.mem_cons_of_mem _ ha))
          (fun a ha => hl' a (List.mem_cons_of_mem _ ha)) htail]

/-- **Texts of plain entries** tell their entries: a heading is told from an entry by the sign. -/
theorem sectioned_injective (hne : sep ≠ sign) (hfirst : sep ∉ first)
    (hsecond : sep ∉ second ∧ sign ∉ second) (hl : ∀ e ∈ l, Plain sep sign e)
    (hm : ∀ e ∈ m, Plain sep sign e) (hl' : ∀ e ∈ l', Plain sep sign e)
    (hm' : ∀ e ∈ m', Plain sep sign e)
    (h : [sep].intercalate (sectioned sign first second l m) =
      [sep].intercalate (sectioned sign first second l' m')) : l = l' ∧ m = m' := by
  have hlines : ∀ {l m : List (List α × List α)}, (∀ e ∈ l, Plain sep sign e) →
      (∀ e ∈ m, Plain sep sign e) → ∀ x ∈ sectioned sign first second l m, sep ∉ x := by
    intro l m hl hm x hx
    simp only [sectioned, List.cons_append, List.mem_cons, List.mem_append, List.mem_map] at hx
    have hentry : ∀ e, Plain sep sign e → sep ∉ entryText sign e := by
      rintro e ⟨-, hk, hv⟩
      simp [entryText, hk, hv, hne]
    rcases hx with rfl | ⟨e, he, rfl⟩ | rfl | ⟨e, he, rfl⟩
    · exact hfirst
    · exact hentry e (hl e he)
    · exact hsecond.1
    · exact hentry e (hm e he)
  have hsame := intercalate_injective (hlines hl hm) (hlines hl' hm') (by simp [sectioned])
    (by simp [sectioned]) h
  simp only [sectioned, List.cons_append, List.cons.injEq, true_and] at hsame
  -- the second heading is the first line without a sign
  have hheading : ∀ {l l' m m' : List (List α × List α)},
      l.map (entryText sign) ++ second :: m.map (entryText sign) =
        l'.map (entryText sign) ++ second :: m'.map (entryText sign) →
      l.map (entryText sign) = l'.map (entryText sign) ∧
        m.map (entryText sign) = m'.map (entryText sign) := by
    intro l l' m m' h
    have hnot : ∀ l : List (List α × List α), second ∉ l.map (entryText sign) := by
      rintro l hmem
      obtain ⟨e, -, he⟩ := List.mem_map.mp hmem
      exact hsecond.2 (he ▸ by simp [entryText])
    exact split_unique (hnot l) (hnot l') h
  obtain ⟨hlsame, hmsame⟩ := hheading hsame
  exact ⟨entriesText_injective hl hl' hlsame, entriesText_injective hm hm' hmsame⟩

end Joined
