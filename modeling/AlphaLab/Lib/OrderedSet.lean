/-
  Sets that iterate in the order their members were first added, and dictionaries of
  them: an index.

  * `add` keeps the place of a member that is there, `discard` the order of the rest;
  * `Dict.enter` adds a member to the group of a key, `membersAt` reads a group back;
  * `grouped` is the index of a list of keyed members, `membersAt_grouped` what it holds.
-/
import AlphaLab.Lib.Dict

structure OrderedSet (α : Type*) where
  members : List α
  nodup : members.Nodup
deriving DecidableEq

namespace OrderedSet

variable {α : Type*} [DecidableEq α]

omit [DecidableEq α] in
@[ext] theorem ext {s t : OrderedSet α} (h : s.members = t.members) : s = t := by
  cases s
  cases t
  simpa using h

def empty : OrderedSet α := ⟨[], .nil⟩

def singleton (a : α) : OrderedSet α := ⟨[a], by simp⟩

/-- `s` with `a`, at the end unless it is there. -/
def add (s : OrderedSet α) (a : α) : OrderedSet α :=
  if h : a ∈ s.members then s
  else ⟨s.members ++ [a], List.nodup_append.mpr ⟨s.nodup, by simp, by
    rintro b hb c hc rfl
    rw [List.mem_singleton] at hc
    exact h (hc ▸ hb)⟩⟩

/-- `s` without `a`. -/
def discard (s : OrderedSet α) (a : α) : OrderedSet α :=
  ⟨s.members.filter (· ≠ a), s.nodup.filter _⟩

def ofList (l : List α) : OrderedSet α := l.foldl add empty

omit [DecidableEq α] in
@[simp] theorem members_empty : (empty : OrderedSet α).members = [] := rfl

theorem members_add (s : OrderedSet α) (a : α) :
    (s.add a).members = if a ∈ s.members then s.members else s.members ++ [a] := by
  unfold add
  split_ifs <;> rfl

@[simp] theorem members_discard (s : OrderedSet α) (a : α) :
    (s.discard a).members = s.members.filter (· ≠ a) := rfl

@[simp] theorem mem_add {s : OrderedSet α} {a b : α} :
    b ∈ (s.add a).members ↔ b = a ∨ b ∈ s.members := by
  rw [members_add]
  split_ifs with h
  · constructor
    · exact Or.inr
    · rintro (rfl | hb)
      · exact h
      · exact hb
  · simp [or_comm]

@[simp] theorem mem_discard {s : OrderedSet α} {a b : α} :
    b ∈ (s.discard a).members ↔ b ≠ a ∧ b ∈ s.members := by
  simp [and_comm]

theorem ofList_members (s : OrderedSet α) : ofList s.members = s := by
  obtain ⟨l, hl⟩ := s
  apply ext
  induction l using List.reverseRecOn with
  | nil => rfl
  | append_singleton l a ih =>
    rw [List.nodup_append] at hl
    have hrec : (ofList l).members = l := ih hl.1
    have ha : a ∉ l := fun h => hl.2.2 a h a (by simp) rfl
    simp only [ofList, List.foldl_append, List.foldl_cons, List.foldl_nil]
    change ((ofList l).add a).members = l ++ [a]
    rw [members_add, hrec, if_neg ha]

end OrderedSet

/-! ## Indexes -/

namespace Dict

variable {κ α : Type*} [DecidableEq κ] [DecidableEq α]

/-- `a` added to the group of `k`. -/
def enter (d : Dict κ (OrderedSet α)) (k : κ) (a : α) : Dict κ (OrderedSet α) :=
  d.set k ((d.get? k).elim (OrderedSet.singleton a) (·.add a))

omit [DecidableEq α] in
/-- The group of `k`, in order; empty where there is none. -/
def membersAt (d : Dict κ (OrderedSet α)) (k : κ) : List α :=
  (d.get? k).elim [] OrderedSet.members

def grouped (l : List (κ × α)) : Dict κ (OrderedSet α) :=
  l.foldl (fun d e => d.enter e.1 e.2) empty

omit [DecidableEq α] in
@[simp] theorem membersAt_empty (k : κ) : (empty : Dict κ (OrderedSet α)).membersAt k = [] := rfl

omit [DecidableEq α] in
theorem membersAt_set (d : Dict κ (OrderedSet α)) (k j : κ) (s : OrderedSet α) :
    (d.set k s).membersAt j = if j = k then s.members else d.membersAt j := by
  simp only [membersAt, get?_set]
  split_ifs <;> rfl

omit [DecidableEq α] in
theorem membersAt_delete (d : Dict κ (OrderedSet α)) (k j : κ) :
    (d.delete k).membersAt j = if j = k then [] else d.membersAt j := by
  simp only [membersAt, get?_delete]
  split_ifs <;> rfl

theorem membersAt_enter (d : Dict κ (OrderedSet α)) (k j : κ) (a : α) :
    (d.enter k a).membersAt j =
      if j = k then
        if a ∈ d.membersAt k then d.membersAt k else d.membersAt k ++ [a]
      else d.membersAt j := by
  rw [enter, membersAt_set]
  by_cases hj : j = k
  · rw [if_pos hj, if_pos hj]
    cases hget : d.get? k with
    | none => simp [membersAt, hget, OrderedSet.singleton]
    | some s => simp [membersAt, hget, OrderedSet.members_add]
  · rw [if_neg hj, if_neg hj]

theorem grouped_append_singleton (l : List (κ × α)) (e : κ × α) :
    grouped (l ++ [e]) = (grouped l).enter e.1 e.2 := by
  simp [grouped]

/-- **What an index holds**: of each key its members, in the order of the list. -/
theorem membersAt_grouped {l : List (κ × α)} (hl : (l.map Prod.snd).Nodup) (k : κ) :
    (grouped l).membersAt k = (l.filter (·.1 = k)).map Prod.snd := by
  induction l using List.reverseRecOn with
  | nil => rfl
  | append_singleton l e ih =>
    rw [List.map_append, List.nodup_append] at hl
    have hnew : e.2 ∉ (l.filter (·.1 = e.1)).map Prod.snd := by
      intro h
      obtain ⟨f, hf, heq⟩ := List.mem_map.mp h
      refine hl.2.2 f.2 (List.mem_map_of_mem (List.mem_of_mem_filter hf)) e.2 (by simp) heq
    rw [grouped_append_singleton, membersAt_enter, List.filter_append, List.map_append]
    by_cases hk : k = e.1
    · subst hk
      rw [if_pos rfl, ih hl.1, if_neg hnew]
      simp
    · rw [if_neg hk, ih hl.1]
      simp [Ne.symm hk]

end Dict
