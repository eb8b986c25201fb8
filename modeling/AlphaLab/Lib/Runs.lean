/-
  Operations that may be refused, and runs of them.

  * `require c e` refuses with `e` unless `c` holds; `bind_ok`, `require_ok`,
    `orRefuse_ok` read the facts back out of an accepted `do` block.
  * `Runs step meets s t`: `t` is reached from `s` by accepted steps, each of
    which meets the condition `meets` in the state it is taken from.  A property
    that one such step preserves holds of every state reached
    (`Runs.invariant`), and a run that need not meet anything is
    `Runs step (fun _ _ => True)`.
-/
import Mathlib.Tactic

namespace Fallible

variable {ε α β σ ι : Type}

/-- Refuse with `e` unless `c` holds. -/
def require (c : Prop) [Decidable c] (e : ε) : Except ε Unit := if c then .ok () else .error e

/-- The value of `o`, or the refusal `e`. -/
def orRefuse (o : Option α) (e : ε) : Except ε α :=
  match o with
  | some a => .ok a
  | none => .error e

variable {x : Except ε α}

theorem bind_ok {f : α → Except ε β} {b : β} : x >>= f = .ok b ↔ ∃ a, x = .ok a ∧ f a = .ok b := by
  cases x with
  | error e => simp [bind, Except.bind]
  | ok a => simp [bind, Except.bind]

theorem pure_ok {a b : α} : (pure a : Except ε α) = .ok b ↔ a = b := by
  simp [pure, Except.pure]

theorem ok_inj {a b : α} : (Except.ok a : Except ε α) = .ok b ↔ a = b := by simp

variable {e : ε}

theorem require_ok {c : Prop} [Decidable c] {u : Unit} : require c e = .ok u ↔ c := by
  simp only [require]
  split_ifs with h <;> simp [h]

variable {o : Option α} {a : α}

theorem orRefuse_ok : orRefuse o e = .ok a ↔ o = some a := by
  cases o <;> simp [orRefuse]

theorem mapError_ok {ε' : Type*} {f : ε → ε'} : x.mapError f = .ok a ↔ x = .ok a := by
  cases x <;> simp [Except.mapError]

theorem bind_error {f : α → Except ε β} :
    x >>= f = .error e ↔ x = .error e ∨ ∃ a, x = .ok a ∧ f a = .error e := by
  cases x with
  | error e' => simp [bind, Except.bind]
  | ok a => simp [bind, Except.bind]

theorem require_error {c : Prop} [Decidable c] {e e' : ε} :
    require c e = .error e' ↔ ¬ c ∧ e = e' := by
  simp only [require]
  split_ifs with h <;> simp [h]

theorem orRefuse_error {e e' : ε} : orRefuse o e = .error e' ↔ o = none ∧ e = e' := by
  cases o <;> simp [orRefuse]

theorem exists_ok_of (P : α → Prop) [DecidablePred P]
    (h : x.toOption.any (fun a => decide (P a)) = true) : ∃ a, x = .ok a ∧ P a := by
  cases x with
  | error e => cases h
  | ok a => exact ⟨a, rfl, of_decide_eq_true h⟩

def refusal : Except ε α → Option ε
  | .ok _ => none
  | .error e => some e

theorem refusal_eq_some : refusal x = some e ↔ x = .error e := by
  cases x <;> simp [refusal]

theorem exists_some_of (P : α → Prop) [DecidablePred P] (h : o.any (fun a => decide (P a)) = true) :
    ∃ a, o = some a ∧ P a := by
  obtain ⟨a, ha, hP⟩ := (Option.any_eq_true _ _).mp h
  exact ⟨a, ha, of_decide_eq_true hP⟩

theorem ok_getD (h : x.toOption.isSome = true) (a : α) : x = .ok (x.toOption.getD a) := by
  cases x with
  | error e => cases h
  | ok b => rfl

variable {l : List α}

theorem mapM_ok {f : α → Except ε β} {g : α → β} (h : ∀ a ∈ l, f a = .ok (g a)) :
    l.mapM f = .ok (l.map g) := by
  induction l with
  | nil => rfl
  | cons a l ih =>
    rw [List.mapM_cons, h a List.mem_cons_self, ih fun b hb => h b (List.mem_cons_of_mem _ hb)]
    rfl

/-- **A list whose values are read is read**, each value as it is read. -/
theorem exists_mapM {f : α → Except ε β} {R : α → β → Prop} (h : ∀ a ∈ l, ∃ b, f a = .ok b ∧ R a b) :
    ∃ r, l.mapM f = .ok r ∧ List.Forall₂ R l r := by
  induction l with
  | nil => exact ⟨[], rfl, .nil⟩
  | cons a l ih =>
    obtain ⟨b, hb, hR⟩ := h a List.mem_cons_self
    obtain ⟨r, hr, hRr⟩ := ih fun a' ha' => h a' (List.mem_cons_of_mem _ ha')
    refine ⟨b :: r, ?_, .cons hR hRr⟩
    rw [List.mapM_cons, hb, hr]
    rfl

theorem exists_of_forall₂ {R : α → β → Prop} {r : List β} (h : List.Forall₂ R l r) (ha : a ∈ l) :
    ∃ b ∈ r, R a b := by
  induction h with
  | nil => cases ha
  | @cons first b l r hfirst _ ih =>
    rcases List.mem_cons.mp ha with rfl | ha
    · exact ⟨b, by simp, hfirst⟩
    · obtain ⟨b', hb', hR⟩ := ih ha
      exact ⟨b', by simp [hb'], hR⟩

theorem mem_mapM {f : α → Except ε β} {b : β} :
    ∀ {l : List α} {r : List β}, l.mapM f = .ok r → b ∈ r → ∃ a ∈ l, f a = .ok b
  | [], r, h, hb => by
    rw [List.mapM_nil, pure_ok] at h
    exact absurd (h ▸ hb) List.not_mem_nil
  | a :: l, r, h, hb => by
    rw [List.mapM_cons, bind_ok] at h
    obtain ⟨first, hfirst, h⟩ := h
    obtain ⟨rest, hrest, h⟩ := bind_ok.mp h
    obtain rfl := pure_ok.mp h
    rcases List.mem_cons.mp hb with rfl | hb
    · exact ⟨a, by simp, hfirst⟩
    · obtain ⟨a', ha', hread⟩ := mem_mapM hrest hb
      exact ⟨a', by simp [ha'], hread⟩

theorem mapM_mem {f : α → Except ε β} :
    ∀ {l : List α} {r : List β}, l.mapM f = .ok r → a ∈ l → ∃ b ∈ r, f a = .ok b
  | [], _, _, ha => absurd ha List.not_mem_nil
  | a' :: l, r, h, ha => by
    rw [List.mapM_cons, bind_ok] at h
    obtain ⟨first, hfirst, h⟩ := h
    obtain ⟨rest, hrest, h⟩ := bind_ok.mp h
    obtain rfl := pure_ok.mp h
    rcases List.mem_cons.mp ha with rfl | ha
    · exact ⟨first, by simp, hfirst⟩
    · obtain ⟨b, hb, hread⟩ := mapM_mem hrest ha
      exact ⟨b, by simp [hb], hread⟩

theorem length_mapM {f : α → Except ε β} :
    ∀ {l : List α} {r : List β}, l.mapM f = .ok r → r.length = l.length
  | [], r, h => by
    rw [List.mapM_nil, pure_ok] at h
    rw [← h, List.length_nil, List.length_nil]
  | a :: l, r, h => by
    rw [List.mapM_cons, bind_ok] at h
    obtain ⟨first, -, h⟩ := h
    obtain ⟨rest, hrest, h⟩ := bind_ok.mp h
    obtain rfl := pure_ok.mp h
    rw [List.length_cons, List.length_cons, length_mapM hrest]

/-- What every accepted step of a fold preserves, an accepted fold preserves. -/
theorem foldlM_invariant {f : σ → ι → Except ε σ} (P : σ → Prop) :
    ∀ {l : List ι} {s t : σ}, l.foldlM f s = .ok t → P s →
      (∀ i ∈ l, ∀ s t, f s i = .ok t → P s → P t) → P t
  | [], s, t, h, hs, _ => by
    rw [List.foldlM_nil, pure_ok] at h
    exact h ▸ hs
  | i :: l, s, t, h, hs, hstep => by
    rw [List.foldlM_cons, bind_ok] at h
    obtain ⟨u, hu, hut⟩ := h
    refine foldlM_invariant P hut (hstep i (by simp) s u hu hs) ?_
    intro j hj
    exact hstep j (by simp [hj])

/-! ### Folds in which each input has its turn

  `E k s t` says that `t` is as `s` is in what concerns the input `k`, and every input
  leaves what concerns the others. -/

section
variable {f : σ → ι → Except ε σ} {E : ι → σ → σ → Prop} (hrefl : ∀ k s, E k s s)
  (htrans : ∀ k s t u, E k s t → E k t u → E k s u)
  (hothers : ∀ j k u v, k ≠ j → f u j = .ok v → E k u v)
include hrefl htrans hothers

theorem foldlM_others {l : List ι} {k : ι} :
    ∀ {s t : σ}, k ∉ l → l.foldlM f s = .ok t → E k s t := by
  induction l with
  | nil =>
    intro s t _ h
    rw [List.foldlM_nil, pure_ok] at h
    exact h ▸ hrefl k s
  | cons j l ih =>
    intro s t hk h
    rw [List.mem_cons, not_or] at hk
    rw [List.foldlM_cons, bind_ok] at h
    obtain ⟨u, hu, h⟩ := h
    exact htrans k s u t (hothers j k s u hk.1 hu) (ih hk.2 h)

/-- **An input's turn**: it finds what concerns it as it was, and the fold leaves it as the
    turn does. -/
theorem foldlM_turn {l : List ι} {k : ι} :
    ∀ {s t : σ}, l.Nodup → k ∈ l → l.foldlM f s = .ok t →
      ∃ u v, E k s u ∧ f u k = .ok v ∧ E k v t := by
  induction l with
  | nil => intro s t _ hk; cases hk
  | cons j l ih =>
    intro s t hl hk h
    rw [List.nodup_cons] at hl
    rw [List.foldlM_cons, bind_ok] at h
    obtain ⟨w, hw, h⟩ := h
    by_cases hkj : k = j
    · subst hkj
      exact ⟨s, w, hrefl k s, hw, foldlM_others hrefl htrans hothers hl.1 h⟩
    · rcases List.mem_cons.mp hk with hk | hk
      · exact absurd hk hkj
      · obtain ⟨u, v, hu, hv, ht⟩ := ih hl.2 hk h
        exact ⟨u, v, htrans k s w u (hothers j k s w hkj hw) hu, hv, ht⟩

theorem foldlM_related {R : σ → σ → Prop} (hRrefl : ∀ s, R s s)
    (hRtrans : ∀ s t u, R s t → R t u → R s u) {l : List ι} :
    ∀ {s t : σ}, l.Nodup → l.foldlM f s = .ok t →
      (∀ k ∈ l, ∀ u v, E k s u → f u k = .ok v → R u v) → R s t := by
  induction l with
  | nil =>
    intro s t _ h _
    rw [List.foldlM_nil, pure_ok] at h
    exact h ▸ hRrefl s
  | cons j l ih =>
    intro s t hl h hturn
    rw [List.nodup_cons] at hl
    rw [List.foldlM_cons, bind_ok] at h
    obtain ⟨w, hw, h⟩ := h
    refine hRtrans s w t (hturn j (by simp) s w (hrefl j s) hw) (ih hl.2 h ?_)
    intro k hk u v hu hv
    have hne : k ≠ j := by
      rintro rfl
      exact hl.1 hk
    exact hturn k (by simp [hk]) u v (htrans k s w u (hothers j k s w hne hw) hu) hv

end

/-- `t` is reached from `s` by accepted steps that meet `meets`. -/
inductive Runs (step : σ → ι → Except ε σ) (meets : σ → ι → Prop) (s : σ) : σ → Prop where
  | refl : Runs step meets s s
  | step {t u : σ} {i : ι} : Runs step meets s t → meets t i → step t i = .ok u →
      Runs step meets s u

variable {step : σ → ι → Except ε σ}

/-- **The induction rule of runs**: what a step that meets the condition
    preserves holds in every state reached. -/
theorem Runs.invariant {meets : σ → ι → Prop} (P : σ → Prop) {s t : σ} (hrun : Runs step meets s t)
    (hs : P s) (hstep : ∀ t i u, P t → meets t i → step t i = .ok u → P u) : P t := by
  induction hrun with
  | refl => exact hs
  | step _ hm hu ih => exact hstep _ _ _ ih hm hu

theorem Runs.of_foldlM {meets : σ → ι → Prop} :
    ∀ {l : List ι} {s t : σ}, l.foldlM step s = .ok t → (∀ i ∈ l, ∀ s, meets s i) →
      Runs step meets s t := by
  intro l
  induction l using List.reverseRecOn with
  | nil =>
    intro s t h _
    rw [List.foldlM_nil, pure_ok] at h
    exact h ▸ .refl
  | append_singleton l i ih =>
    intro s t h hmeets
    rw [List.foldlM_append, bind_ok] at h
    obtain ⟨u, hu, h⟩ := h
    rw [List.foldlM_cons, bind_ok] at h
    obtain ⟨t', ht, h⟩ := h
    rw [List.foldlM_nil, pure_ok] at h
    subst h
    exact (ih hu fun j hj => hmeets j (by simp [hj])).step (hmeets i (by simp) u) ht

/-- Steps refused where they do not meet the condition meet it where they are accepted. -/
theorem Runs.of_guarded {meets : σ → ι → Prop} [∀ s i, Decidable (meets s i)] {s t : σ}
    (h : Runs (fun s i => if meets s i then step s i else .error e) (fun _ _ => True) s t) :
    Runs step meets s t := by
  induction h with
  | refl => exact .refl
  | step _ _ hu ih =>
    split_ifs at hu with hmeets
    exact ih.step hmeets hu

end Fallible
