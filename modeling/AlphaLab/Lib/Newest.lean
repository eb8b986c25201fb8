/-
  A table that keeps, for each key, the newest of what it was offered.

  A value has a key and a stamp.  It replaces what the table keeps for its key where
  that is older (`keepNewest`), and it clashes with it where the two are of one stamp
  and differ (`Admits` rules that out).

  * `get?_newest`: after any values the table keeps one of the greatest stamp of all
    that were known for the key;
  * `admittedAll_of_consistent`, `consistent_of_admittedAll`: every order of the values
    is admitted exactly where no two of what is known clash.
-/
import AlphaLab.Lib.Dict

namespace Newest

variable {κ ι α : Type*} [DecidableEq κ] [LinearOrder ι] (key : α → κ) (stamp : α → ι)

/-- The table, `x` offered to it. -/
def keepNewest (d : Dict κ α) (x : α) : Dict κ α :=
  if ∀ h ∈ d.get? (key x), stamp h < stamp x then d.set (key x) x else d

/-- `x` is not a second answer to the question the table has an answer for. -/
def Admits (d : Dict κ α) (x : α) : Prop := ∀ h ∈ d.get? (key x), stamp x = stamp h → x = h

def newest (d : Dict κ α) (xs : List α) : Dict κ α := xs.foldl (keepNewest key stamp) d

def AdmittedAll (d : Dict κ α) : List α → Prop
  | [] => True
  | x :: xs => Admits key stamp d x ∧ AdmittedAll (keepNewest key stamp d x) xs

/-- All that is known of a key: what the table keeps for it, and what is offered. -/
def known (d : Dict κ α) (xs : List α) (k : κ) : List α :=
  (d.get? k).toList ++ xs.filter (key · = k)

/-- No two known values of one key and stamp differ, those apart that are older than
    what the table keeps already: they are compared with nothing. -/
def Consistent (d : Dict κ α) (xs : List α) : Prop :=
  ∀ k, ∀ a ∈ known key d xs k, ∀ b ∈ known key d xs k, stamp a = stamp b →
    a = b ∨ ∃ h ∈ d.get? k, stamp a < stamp h

def NewestAgree (d : Dict κ α) (xs : List α) : Prop :=
  ∀ k, ∀ a ∈ known key d xs k, ∀ b ∈ known key d xs k,
    (∀ c ∈ known key d xs k, stamp c ≤ stamp a) → stamp b = stamp a → b = a

variable {key stamp} {d : Dict κ α} {x : α} {xs ys : List α} {k : κ}

theorem mem_known {a : α} : a ∈ known key d xs k ↔ d.get? k = some a ∨ a ∈ xs ∧ key a = k := by
  simp [known]

theorem mem_known_perm (h : xs.Perm ys) {a : α} : a ∈ known key d xs k ↔ a ∈ known key d ys k := by
  rw [mem_known, mem_known, h.mem_iff]

theorem Consistent.perm (h : xs.Perm ys) (hc : Consistent key stamp d xs) :
    Consistent key stamp d ys := by
  intro k a ha b hb
  exact hc k a ((mem_known_perm h).mpr ha) b ((mem_known_perm h).mpr hb)

theorem NewestAgree.perm (h : xs.Perm ys) (hc : NewestAgree key stamp d xs) :
    NewestAgree key stamp d ys := by
  intro k a ha b hb hmax
  exact hc k a ((mem_known_perm h).mpr ha) b ((mem_known_perm h).mpr hb)
    fun c hmem => hmax c ((mem_known_perm h).mp hmem)

variable (key stamp d x k) in
theorem get?_keepNewest :
    (k ≠ key x ∧ (keepNewest key stamp d x).get? k = d.get? k) ∨
      (k = key x ∧ (∀ h, d.get? k = some h → stamp h < stamp x) ∧
        (keepNewest key stamp d x).get? k = some x) ∨
      (k = key x ∧ ∃ h, d.get? k = some h ∧ stamp x ≤ stamp h ∧
        (keepNewest key stamp d x).get? k = some h) := by
  unfold keepNewest
  by_cases hk : k = key x
  · subst hk
    split_ifs with hnewer
    · exact Or.inr (Or.inl ⟨rfl, hnewer, Dict.get?_set_self _ _ _⟩)
    · push Not at hnewer
      obtain ⟨h, hmem, hle⟩ := hnewer
      exact Or.inr (Or.inr ⟨rfl, h, hmem, hle, hmem⟩)
  · refine Or.inl ⟨hk, ?_⟩
    split_ifs
    · exact Dict.get?_set_of_ne _ _ hk
    · rfl

variable (key stamp d x xs k) in
theorem known_keepNewest :
    (∀ a ∈ known key (keepNewest key stamp d x) xs k, a ∈ known key d (x :: xs) k) ∧
      ∀ a ∈ known key d (x :: xs) k, a ∈ known key (keepNewest key stamp d x) xs k ∨
        ∃ h ∈ known key (keepNewest key stamp d x) xs k, stamp a ≤ stamp h := by
  simp only [mem_known, List.mem_cons]
  rcases get?_keepNewest key stamp d x k with
    ⟨hk, hget⟩ | ⟨rfl, hnewer, hget⟩ | ⟨rfl, h, hheld, hle, hget⟩
  · grind
  · grind
  · grind

/-- **The table keeps the newest**: a known value, of the greatest stamp known. -/
theorem get?_newest {a : α} (h : (newest key stamp d xs).get? k = some a) :
    a ∈ known key d xs k ∧ ∀ b ∈ known key d xs k, stamp b ≤ stamp a := by
  induction xs generalizing d with
  | nil =>
    rw [newest, List.foldl_nil] at h
    refine ⟨mem_known.mpr (Or.inl h), ?_⟩
    intro b hb
    rcases mem_known.mp hb with hb | ⟨hb, -⟩
    · rw [Option.some.inj (hb.symm.trans h)]
    · cases hb
  | cons x xs ih =>
    obtain ⟨hmem, hmax⟩ := ih h
    obtain ⟨hback, hforth⟩ := known_keepNewest key stamp d x xs k
    refine ⟨hback a hmem, ?_⟩
    intro b hb
    rcases hforth b hb with hb | ⟨c, hc, hle⟩
    · exact hmax b hb
    · exact hle.trans (hmax c hc)

theorem get?_newest_none (h : (newest key stamp d xs).get? k = none) : known key d xs k = [] := by
  induction xs generalizing d with
  | nil =>
    rw [newest, List.foldl_nil] at h
    simp [known, h]
  | cons x xs ih =>
    have hnone := ih h
    obtain ⟨-, hforth⟩ := known_keepNewest key stamp d x xs k
    rw [List.eq_nil_iff_forall_not_mem]
    intro b hb
    rcases hforth b hb with hb | ⟨c, hc, -⟩
    · rw [hnone] at hb
      cases hb
    · rw [hnone] at hc
      cases hc

/-- **Where nothing known clashes, every value is admitted.** -/
theorem admittedAll_of_consistent (h : Consistent key stamp d xs) : AdmittedAll key stamp d xs := by
  induction xs generalizing d with
  | nil => trivial
  | cons x xs ih =>
    refine ⟨?_, ih ?_⟩
    · intro held hheld hstamp
      rcases h (key x) x (mem_known.mpr (Or.inr ⟨List.mem_cons_self, rfl⟩)) held
        (mem_known.mpr (Or.inl hheld)) hstamp with heq | ⟨other, hother, hlt⟩
      · exact heq
      · obtain rfl := Option.some.inj (Option.mem_def.mp hother ▸ Option.mem_def.mp hheld)
        exact absurd hstamp hlt.ne
    · intro k a ha b hb hstamp
      obtain ⟨hback, -⟩ := known_keepNewest key stamp d x xs k
      rcases h k a (hback a ha) b (hback b hb) hstamp with
        heq | ⟨held, hheld, hlt⟩
      · exact Or.inl heq
      · -- what is kept is no older than it was
        refine Or.inr ?_
        rcases get?_keepNewest key stamp d x k with
          ⟨-, hget⟩ | ⟨-, hnewer, hget⟩ | ⟨-, other, hother, -, hget⟩
        · exact ⟨held, hget.trans hheld, hlt⟩
        · exact ⟨x, hget, hlt.trans (hnewer held hheld)⟩
        · obtain rfl := Option.some.inj (hother.symm.trans hheld)
          exact ⟨other, hget, hlt⟩

theorem newestAgree_of_admittedAll (h : AdmittedAll key stamp d xs) :
    NewestAgree key stamp d xs := by
  induction xs generalizing d with
  | nil =>
    intro k a ha b hb _ _
    simp only [mem_known, List.not_mem_nil, false_and, or_false] at ha hb
    exact Option.some.inj (hb.symm.trans ha)
  | cons x xs ih =>
    obtain ⟨hfirst, hrest⟩ := h
    have hagree := ih hrest
    intro k a ha b hb hmax hstamp
    obtain ⟨hback, -⟩ := known_keepNewest key stamp d x xs k
    have hkept : ∀ c ∈ known key d (x :: xs) k, stamp c = stamp a →
        c ∈ known key (keepNewest key stamp d x) xs k := by
      intro c hc hca
      rw [mem_known] at hc ⊢
      rcases get?_keepNewest key stamp d x k with
        ⟨hk, hget⟩ | ⟨rfl, hnewer, hget⟩ | ⟨rfl, held, hheld, hle, hget⟩
      · rw [hget]
        rcases hc with hc | ⟨hc, hkey⟩
        · exact Or.inl hc
        · rcases List.mem_cons.mp hc with rfl | hc
          · exact absurd hkey.symm hk
          · exact Or.inr ⟨hc, hkey⟩
      · rw [hget]
        rcases hc with hc | ⟨hc, hkey⟩
        · have hlater := hmax x (mem_known.mpr (Or.inr ⟨List.mem_cons_self, rfl⟩))
          exact absurd (hnewer c hc) (by rw [hca]; exact hlater.not_gt)
        · rcases List.mem_cons.mp hc with rfl | hc
          · exact Or.inl rfl
          · exact Or.inr ⟨hc, hkey⟩
      · rw [hget]
        rcases hc with hc | ⟨hc, hkey⟩
        · exact Or.inl (hheld.symm.trans hc)
        · rcases List.mem_cons.mp hc with rfl | hc
          · -- offered and not newer than what is kept: it was admitted, so it is that
            have hsame : stamp c = stamp held :=
              le_antisymm hle ((hmax held (mem_known.mpr (Or.inl hheld))).trans_eq hca.symm)
            exact Or.inl (congrArg some (hfirst held hheld hsame).symm)
          · exact Or.inr ⟨hc, hkey⟩
    exact hagree k a (hkept a ha rfl) b (hkept b hb hstamp)
      (fun c hc => hmax c (hback c hc)) hstamp

/-- **Newest first, every value is admitted** where the newest agree. -/
theorem admittedAll_of_descending (hagree : NewestAgree key stamp d xs)
    (hsorted : xs.Pairwise fun a b => stamp b ≤ stamp a) : AdmittedAll key stamp d xs := by
  induction xs generalizing d with
  | nil => trivial
  | cons x xs ih =>
    rw [List.pairwise_cons] at hsorted
    have hself : x ∈ known key d (x :: xs) (key x) :=
      mem_known.mpr (Or.inr ⟨List.mem_cons_self, rfl⟩)
    refine ⟨?_, ih ?_ hsorted.2⟩
    · intro held hheld hstamp
      have hmem : held ∈ known key d (x :: xs) (key x) := mem_known.mpr (Or.inl hheld)
      refine hagree (key x) held hmem x hself ?_ hstamp
      intro c hc
      rcases mem_known.mp hc with hc | ⟨hc, -⟩
      · rw [Option.some.inj (hc.symm.trans hheld)]
      · rcases List.mem_cons.mp hc with rfl | hc
        · exact hstamp.le
        · exact (hsorted.1 c hc).trans hstamp.le
    · intro k a ha b hb hmax hstamp
      obtain ⟨hback, hforth⟩ := known_keepNewest key stamp d x xs k
      refine hagree k a (hback a ha) b (hback b hb) ?_ hstamp
      intro c hc
      rcases hforth c hc with hc | ⟨h, hh, hle⟩
      · exact hmax c hc
      · exact hle.trans (hmax h hh)

/-- **Every order is admitted only where nothing known clashes**: a clash is met at once
    in the order that begins with it. -/
theorem consistent_of_admittedAll [DecidableEq α]
    (h : ∀ ys : List α, ys.Perm xs → AdmittedAll key stamp d ys) : Consistent key stamp d xs := by
  intro k a ha b hb hstamp
  by_contra hclash
  push Not at hclash
  obtain ⟨hne, hheld⟩ := hclash
  rcases mem_known.mp ha with hga | ⟨hmema, rfl⟩
  · rcases mem_known.mp hb with hgb | ⟨hmemb, rfl⟩
    · exact hne (Option.some.inj (hga.symm.trans hgb))
    · have hfirst := h _ (List.perm_cons_erase hmemb).symm
      exact hne (hfirst.1 a hga hstamp.symm).symm
  · rcases mem_known.mp hb with hgb | ⟨hmemb, hkey⟩
    · have hfirst := h _ (List.perm_cons_erase hmema).symm
      exact hne (hfirst.1 b hgb hstamp)
    · have hmemb' : b ∈ xs.erase a := (List.mem_erase_of_ne (Ne.symm hne)).mpr hmemb
      have hperm : (a :: b :: (xs.erase a).erase b).Perm xs :=
        ((List.perm_cons_erase hmemb').symm.cons a).trans (List.perm_cons_erase hmema).symm
      obtain ⟨hfirst, hsecond, -⟩ := h _ hperm
      -- the table keeps the first of the two, so the second is compared with it
      rcases get?_keepNewest key stamp d a (key a) with
        ⟨hk, -⟩ | ⟨-, -, hget⟩ | ⟨-, held, hget, hle, hkept⟩
      · exact hk rfl
      · exact hne (hsecond a (hkey.symm ▸ hget) hstamp.symm).symm
      · have hsame : stamp a = stamp held := le_antisymm hle (hheld held hget)
        have heq : a = held := hfirst held hget hsame
        exact hne (heq.trans (hsecond held (hkey.symm ▸ hkept) (hstamp.symm.trans hsame)).symm)

/-- **What an empty table keeps of a list**: of each key the newest value, where the values of
    a key are told apart by their stamps. -/
theorem mem_values_newest
    (hinj : ∀ a ∈ xs, ∀ b ∈ xs, key a = key b → stamp a = stamp b → a = b) :
    x ∈ (newest key stamp Dict.empty xs).values ↔
      x ∈ xs ∧ ∀ b ∈ xs, key b = key x → stamp b ≤ stamp x := by
  have hknown : ∀ (k : κ) (a : α), a ∈ known key Dict.empty xs k ↔ a ∈ xs ∧ key a = k := by
    intro k a
    simp [mem_known]
  rw [Dict.mem_values]
  constructor
  · rintro ⟨k, hk⟩
    obtain ⟨hmem, hmost⟩ := get?_newest hk
    obtain ⟨hx, rfl⟩ := (hknown k x).mp hmem
    exact ⟨hx, fun b hb hkey => hmost b ((hknown _ b).mpr ⟨hb, hkey⟩)⟩
  · rintro ⟨hx, hmost⟩
    refine ⟨key x, ?_⟩
    cases hget : (newest key stamp Dict.empty xs).get? (key x) with
    | none =>
      have hnone := get?_newest_none hget
      have hin := (hknown (key x) x).mpr ⟨hx, rfl⟩
      rw [hnone] at hin
      cases hin
    | some a =>
      obtain ⟨hmem, hleast⟩ := get?_newest hget
      obtain ⟨ha, hkey⟩ := (hknown (key x) a).mp hmem
      have hsame : stamp a = stamp x :=
        le_antisymm (hmost a ha hkey) (hleast x ((hknown _ x).mpr ⟨hx, rfl⟩))
      rw [hinj a ha x hx hkey hsame]

theorem nodup_keys_newest : ((newest key stamp Dict.empty xs).values.map key).Nodup := by
  have hkeys : (newest key stamp Dict.empty xs).values.map key =
      (newest key stamp Dict.empty xs).keys := by
    rw [Dict.values, Dict.keys, List.map_map]
    refine List.map_congr_left fun e he => ?_
    have hmem := (get?_newest ((Dict.get?_eq_some _).mpr he)).1
    simp only [mem_known, Dict.get?_empty, reduceCtorEq, false_or] at hmem
    exact hmem.2
  rw [hkeys]
  exact (newest key stamp Dict.empty xs).nodup

end Newest
