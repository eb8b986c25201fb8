/-
  Sweeps over entries in the order of their instants.

  A sweep takes the entries of one instant together: `step` takes each of them into the state,
  and `emit` says, once an instant is over, what the state adds to the output.

  * `filter_sweep`: what is emitted up to a bound depends on the entries up to it alone;
  * `sweep_invariant`: what holds of every state that is emitted from;
  * `emitChange` emits where what is said changes: `last_emitChange` is since when the last of
    the output is said, and `sweep_settled` that nothing is emitted while it is.
-/
import Mathlib.Order.Basic
import Mathlib.Data.List.Basic
import Mathlib.Tactic

namespace Fallible

variable {ι α β σ : Type} [LinearOrder ι]

/-- One pass over `entries`, from the state `s` and the output `out`. -/
def sweep (step : σ → α → σ) (emit : ι → σ → List β → List β) :
    List (ι × α) → σ → List β → List β
  | [], _, out => out
  | (i, a) :: later, s, out =>
    if later.head?.map Prod.fst = some i then sweep step emit later (step s a) out
    else sweep step emit later (step s a) (emit i (step s a) out)

def EmitsAt (instant : β → ι) (emit : ι → σ → List β → List β) : Prop :=
  ∀ i s out, emit i s out = out ∨ ∃ b, instant b = i ∧ emit i s out = out ++ [b]

variable {i : ι} {l : List (ι × α)} {s : σ}

section
variable {step : σ → α → σ} {emit : ι → σ → List β → List β} {instant : β → ι} {bound : ι}

theorem EmitsAt.filter_late (h : EmitsAt instant emit) (hi : ¬ i ≤ bound) (s : σ) (out : List β) :
    (emit i s out).filter (fun b => instant b ≤ bound) = out.filter fun b => instant b ≤ bound := by
  rcases h i s out with heq | ⟨b, hb, heq⟩
  · rw [heq]
  · have hlate : [b].filter (fun b => instant b ≤ bound) = [] :=
      List.filter_eq_nil_iff.mpr (by simpa [hb] using hi)
    rw [heq, List.filter_append, hlate, List.append_nil]

theorem filter_sweep_late (h : EmitsAt instant emit) : ∀ {l : List (ι × α)} {s : σ} {out : List β},
    (∀ e ∈ l, ¬ e.1 ≤ bound) →
    (sweep step emit l s out).filter (fun b => instant b ≤ bound) =
      out.filter fun b => instant b ≤ bound
  | [], s, out, _ => rfl
  | (i, a) :: later, s, out, hl => by
    have hlater := fun e he => hl e (List.mem_cons_of_mem _ he)
    rw [sweep]
    split_ifs
    · exact filter_sweep_late h hlater
    · rw [filter_sweep_late h hlater, h.filter_late (hl _ List.mem_cons_self)]

/-- In order, what is at or below the bound goes on with the same instant or is over. -/
private theorem head_filter (hi : i ≤ bound) : ∀ {l : List (ι × α)},
    l.Pairwise (fun a b => a.1 ≤ b.1) →
    (l.head?.map Prod.fst = some i ↔
      (l.filter fun e => e.1 ≤ bound).head?.map Prod.fst = some i)
  | [], _ => by simp
  | (j, b) :: l, hsorted => by
    rw [List.pairwise_cons] at hsorted
    by_cases hj : j ≤ bound
    · rw [List.filter_cons_of_pos (by simpa using hj)]
      simp
    · have hnone : (((j, b) :: l).filter fun e => e.1 ≤ bound) = [] := by
        refine List.filter_eq_nil_iff.mpr fun e he => ?_
        rcases List.mem_cons.mp he with rfl | he
        · simpa using hj
        · have := lt_of_not_ge hj
          simpa using this.trans_le (hsorted.1 e he)
      rw [hnone]
      simp only [List.head?_cons, Option.map_some, Option.some.injEq, List.head?_nil,
        Option.map_none, reduceCtorEq, iff_false]
      rintro rfl
      exact hj hi

/-- **What is emitted up to a bound depends on the entries up to it alone.** -/
theorem filter_sweep (h : EmitsAt instant emit) : ∀ {l : List (ι × α)} {s : σ} {out : List β},
    l.Pairwise (fun a b => a.1 ≤ b.1) →
    (sweep step emit l s out).filter (fun b => instant b ≤ bound) =
      (sweep step emit (l.filter fun e => e.1 ≤ bound) s out).filter fun b => instant b ≤ bound
  | [], s, out, _ => rfl
  | (i, a) :: later, s, out, hsorted => by
    rw [List.pairwise_cons] at hsorted
    by_cases hi : i ≤ bound
    · have hhead := head_filter hi hsorted.2
      rw [List.filter_cons_of_pos (by simpa using hi), sweep, sweep]
      by_cases hsame : later.head?.map Prod.fst = some i
      · rw [if_pos hsame, if_pos (hhead.mp hsame)]
        exact filter_sweep h hsorted.2
      · rw [if_neg hsame, if_neg fun hsame' => hsame (hhead.mpr hsame')]
        exact filter_sweep h hsorted.2
    · have hlate : ∀ e ∈ (i, a) :: later, ¬ e.1 ≤ bound := by
        intro e he
        rcases List.mem_cons.mp he with rfl | he
        · exact hi
        · exact not_le.mpr ((lt_of_not_ge hi).trans_le (hsorted.1 e he))
      have hnone : (((i, a) :: later).filter fun e => e.1 ≤ bound) = [] :=
        List.filter_eq_nil_iff.mpr fun e he => by simpa using hlate e he
      rw [filter_sweep_late h hlate, hnone]
      rfl

/-- **What holds of every state that is emitted from** holds of the output. -/
theorem sweep_invariant (P : ι → σ → Prop) (Q : β → Prop)
    (hmono : ∀ {i j s}, i ≤ j → P i s → P j s)
    (hemit : ∀ {i s out}, P i s → (∀ b ∈ out, Q b) → ∀ b ∈ emit i s out, Q b) :
    ∀ {l : List (ι × α)} {s : σ} {out : List β}, l.Pairwise (fun a b => a.1 ≤ b.1) →
      (∀ e ∈ l, ∀ s, P e.1 s → P e.1 (step s e.2)) → (∀ e ∈ l, P e.1 s) → (∀ b ∈ out, Q b) →
      ∀ b ∈ sweep step emit l s out, Q b
  | [], s, out, _, _, _, hout => hout
  | (i, a) :: later, s, out, hsorted, hstep, hs, hout => by
    rw [List.pairwise_cons] at hsorted
    have hnext : P i (step s a) := hstep _ List.mem_cons_self s (hs _ List.mem_cons_self)
    have hstep' := fun e he => hstep e (List.mem_cons_of_mem _ he)
    have hs' : ∀ e ∈ later, P e.1 (step s a) := fun e he => hmono (hsorted.1 e he) hnext
    rw [sweep]
    split_ifs
    · exact sweep_invariant P Q hmono hemit hsorted.2 hstep' hs' hout
    · exact sweep_invariant P Q hmono hemit hsorted.2 hstep' hs' (hemit hnext hout)

theorem sweep_instants (h : EmitsAt instant emit) {P : ι → Prop} :
    ∀ {l : List (ι × α)} {s : σ} {out : List β}, (∀ e ∈ l, P e.1) →
      (∀ b ∈ out, P (instant b)) → ∀ b ∈ sweep step emit l s out, P (instant b)
  | [], s, out, _, hout => hout
  | (i, a) :: later, s, out, hl, hout => by
    have hlater := fun e he => hl e (List.mem_cons_of_mem _ he)
    rw [sweep]
    split_ifs
    · exact sweep_instants h hlater hout
    · refine sweep_instants h hlater ?_
      rcases h i (step s a) out with heq | ⟨b, hb, heq⟩
      · rwa [heq]
      · rw [heq]
        intro c hc
        rcases List.mem_append.mp hc with hc | hc
        · exact hout c hc
        · rw [List.mem_singleton.mp hc, hb]
          exact hl _ List.mem_cons_self

/-- **The output up to a bound** is a sweep of the entries up to it. -/
theorem filter_sweep_eq (h : EmitsAt instant emit) (hsorted : l.Pairwise fun a b => a.1 ≤ b.1) :
    (sweep step emit l s []).filter (fun b => instant b ≤ bound) =
      sweep step emit (l.filter fun e => e.1 ≤ bound) s [] := by
  rw [filter_sweep h hsorted, List.filter_eq_self]
  intro b hb
  have hle : instant b ≤ bound := by
    refine sweep_instants (P := (· ≤ bound)) h ?_ (by simp) b hb
    intro e he
    simpa using (List.mem_filter.mp he).2
  simpa using hle

/-- **The last of the output says what the last state says.**  `value` is what a state says
    at an instant, and `J` what an output must keep for an emission to say it. -/
theorem getLast?_sweep {γ : Type} {read : β → γ} {value : ι → σ → Option γ}
    {J : σ → List β → Prop} (hstep : ∀ s a out, J s out → J (step s a) out)
    (hemit : ∀ i s out, J s out →
      (emit i s out).getLast?.map read = value i s ∧ J s (emit i s out)) :
    ∀ {l : List (ι × α)} {s : σ} {out : List β}, l ≠ [] → J s out →
      ∃ i, l.getLast?.map Prod.fst = some i ∧
        (sweep step emit l s out).getLast?.map read =
          value i (l.foldl (fun s e => step s e.2) s)
  | (i, a) :: [], s, out, _, hJ => ⟨i, rfl, (hemit i _ out (hstep s a out hJ)).1⟩
  | (i, a) :: e :: later, s, out, _, hJ => by
    have hnext := hstep s a out hJ
    rw [sweep, List.foldl_cons]
    split_ifs
    · obtain ⟨j, hj, hlast⟩ := getLast?_sweep hstep hemit (l := e :: later) (by simp) hnext
      exact ⟨j, by simpa [List.getLast?_cons_cons] using hj, hlast⟩
    · obtain ⟨j, hj, hlast⟩ := getLast?_sweep hstep hemit (l := e :: later) (by simp)
        (hemit i _ out hnext).2
      exact ⟨j, by simpa [List.getLast?_cons_cons] using hj, hlast⟩

end

/-! ## Changes -/

section
variable {γ : Type} [DecidableEq γ] {step : σ → α → σ} {val : ι → σ → β} {read : β → γ}
  {say : σ → γ}

def emitChange (val : ι → σ → β) (read : β → γ) (i : ι) (s : σ) (out : List β) : List β :=
  if out.getLast?.map read = some (read (val i s)) then out else out ++ [val i s]

/-- The state at an instant, once the entries at or before it are taken. -/
def stateAt (step : σ → α → σ) (l : List (ι × α)) (s : σ) (u : ι) : σ :=
  (l.filter fun e => e.1 ≤ u).foldl (fun s e => step s e.2) s

omit [LinearOrder ι] in
theorem getLast?_emitChange (hread : ∀ i s, read (val i s) = say s) (i : ι) (s : σ)
    (out : List β) : (emitChange val read i s out).getLast?.map read = some (say s) := by
  unfold emitChange
  split_ifs with hsame
  · rw [hsame, hread]
  · simp [hread]

variable {u : ι} {later : List (ι × α)}

omit [DecidableEq γ] in
theorem stateAt_cons {a : α} (hi : i ≤ u) :
    stateAt step ((i, a) :: later) s u = stateAt step later (step s a) u := by
  rw [stateAt, List.filter_cons_of_pos (by simpa using hi), List.foldl_cons]
  rfl

omit [DecidableEq γ] in
theorem stateAt_of_late (hlate : ∀ e ∈ l, u < e.1) : stateAt step l s u = s := by
  have hnone : l.filter (fun e => e.1 ≤ u) = [] :=
    List.filter_eq_nil_iff.mpr fun e he => by simpa using hlate e he
  rw [stateAt, hnone]
  rfl

omit [DecidableEq γ] in
theorem later_of_head (hsorted : later.Pairwise fun a b => a.1 ≤ b.1) (hle : ∀ e ∈ later, i ≤ e.1)
    (hhead : later.head?.map Prod.fst ≠ some i) : ∀ e ∈ later, i < e.1 := by
  intro e he
  cases later with
  | nil => cases he
  | cons f later =>
    have hne : f.1 ≠ i := fun h => hhead (by simp [h])
    have hf : i < f.1 := lt_of_le_of_ne (hle f List.mem_cons_self) hne.symm
    rcases List.mem_cons.mp he with rfl | he
    · exact hf
    · exact hf.trans_le ((List.pairwise_cons.mp hsorted).1 e he)

/-- **Since when the last of the output is said**: since before the entries, or since the
    instant it was emitted at. -/
theorem last_emitChange (hread : ∀ i s, read (val i s) = say s) :
    ∀ {l : List (ι × α)} (s : σ) (out : List β), l.Pairwise (fun a b => a.1 ≤ b.1) →
      ((sweep step (emitChange val read) l s out).getLast? = out.getLast? ∧
        ∀ u, (∃ e ∈ l, e.1 ≤ u) → out.getLast?.map read = some (say (stateAt step l s u))) ∨
      ∃ i, (∃ e ∈ l, e.1 = i) ∧
        (sweep step (emitChange val read) l s out).getLast? = some (val i (stateAt step l s i)) ∧
        ∀ u, i ≤ u → say (stateAt step l s u) = say (stateAt step l s i)
  | [], s, out, _ => by
    refine Or.inl ⟨rfl, ?_⟩
    rintro u ⟨e, he, -⟩
    cases he
  | (i, a) :: later, s, out, hsorted => by
    obtain ⟨hle, hlater⟩ := List.pairwise_cons.mp hsorted
    rw [sweep]
    split_ifs with hhead
    · -- the instant goes on
      have hfirst : ∃ e ∈ later, e.1 = i := by
        cases later with
        | nil => cases hhead
        | cons f later => exact ⟨f, List.mem_cons_self, Option.some.inj hhead⟩
      rcases last_emitChange hread (step s a) out hlater with
        ⟨hlast, hsaid⟩ | ⟨j, ⟨e, he, rfl⟩, hlast, hsaid⟩
      · refine Or.inl ⟨hlast, ?_⟩
        rintro u ⟨e, he, heu⟩
        have hiu : i ≤ u := by
          rcases List.mem_cons.mp he with rfl | he
          · exact heu
          · exact (hle e he).trans heu
        obtain ⟨f, hf, hfi⟩ := hfirst
        rw [stateAt_cons hiu]
        exact hsaid u ⟨f, hf, hfi.le.trans hiu⟩
      · refine Or.inr ⟨e.1, ⟨e, List.mem_cons_of_mem _ he, rfl⟩, ?_, ?_⟩
        · rw [stateAt_cons (hle e he)]
          exact hlast
        · intro u hu
          rw [stateAt_cons (hle e he), stateAt_cons ((hle e he).trans hu)]
          exact hsaid u hu
    · -- the instant is over
      have hlt := later_of_head hlater hle hhead
      have hat : stateAt step ((i, a) :: later) s i = step s a := by
        rw [stateAt_cons le_rfl, stateAt_of_late hlt]
      rcases last_emitChange hread (step s a) (emitChange val read i (step s a) out) hlater with
        ⟨hlast, hsaid⟩ | ⟨j, ⟨e, he, rfl⟩, hlast, hsaid⟩
      · have hall : ∀ u, i ≤ u →
            some (say (step s a)) = some (say (stateAt step ((i, a) :: later) s u)) := by
          intro u hu
          rw [stateAt_cons hu]
          by_cases hsome : ∃ e ∈ later, e.1 ≤ u
          · rw [← hsaid u hsome, getLast?_emitChange hread]
          · push Not at hsome
            rw [stateAt_of_late hsome]
        rw [hlast]
        by_cases hsame : out.getLast?.map read = some (read (val i (step s a)))
        · refine Or.inl ⟨by rw [emitChange, if_pos hsame], ?_⟩
          rintro u ⟨e, he, heu⟩
          have hiu : i ≤ u := by
            rcases List.mem_cons.mp he with rfl | he
            · exact heu
            · exact (hle e he).trans heu
          rw [hsame, hread]
          exact hall u hiu
        · refine Or.inr ⟨i, ⟨(i, a), List.mem_cons_self, rfl⟩, ?_, ?_⟩
          · rw [emitChange, if_neg hsame, hat]
            simp
          · intro u hu
            rw [hat]
            exact (Option.some.inj (hall u hu)).symm
      · refine Or.inr ⟨e.1, ⟨e, List.mem_cons_of_mem _ he, rfl⟩, ?_, ?_⟩
        · rw [stateAt_cons (hle e he)]
          exact hlast
        · intro u hu
          rw [stateAt_cons (hle e he), stateAt_cons ((hle e he).trans hu)]
          exact hsaid u hu

/-- **Nothing is emitted while what is said stays the same.** -/
theorem sweep_settled (hread : ∀ i s, read (val i s) = say s) {r : γ} :
    ∀ {l : List (ι × α)} {s : σ} {out : List β}, l.Pairwise (fun a b => a.1 ≤ b.1) →
      out.getLast?.map read = some r →
      (∀ u, (∃ e ∈ l, e.1 = u) → say (stateAt step l s u) = r) →
      sweep step (emitChange val read) l s out = out
  | [], s, out, _, _, _ => rfl
  | (i, a) :: later, s, out, hsorted, hout, hsame => by
    obtain ⟨hle, hlater⟩ := List.pairwise_cons.mp hsorted
    have hnext : ∀ u, (∃ e ∈ later, e.1 = u) → say (stateAt step later (step s a) u) = r := by
      rintro u ⟨e, he, rfl⟩
      rw [← stateAt_cons (hle e he)]
      exact hsame e.1 ⟨e, List.mem_cons_of_mem _ he, rfl⟩
    rw [sweep]
    split_ifs with hhead
    · exact sweep_settled hread hlater hout hnext
    · have hlt := later_of_head hlater hle hhead
      have hnow := hsame i ⟨(i, a), List.mem_cons_self, rfl⟩
      rw [stateAt_cons le_rfl, stateAt_of_late hlt] at hnow
      have hquiet : emitChange val read i (step s a) out = out := by
        rw [emitChange, hread, hnow]
        exact if_pos hout
      rw [hquiet]
      exact sweep_settled hread hlater hout hnext

end

/-- Entries of later instants are swept after those before them. -/
theorem sweep_append {step : σ → α → σ} {emit : ι → σ → List β → List β} {l' : List (ι × α)} :
    ∀ {l : List (ι × α)} {s : σ} {out : List β}, (∀ a ∈ l, ∀ b ∈ l', a.1 < b.1) →
      sweep step emit (l ++ l') s out =
        sweep step emit l' (l.foldl (fun s e => step s e.2) s) (sweep step emit l s out)
  | [], s, out, _ => rfl
  | (i, a) :: later, s, out, hlt => by
    have hrest : ∀ a ∈ later, ∀ b ∈ l', a.1 < b.1 :=
      fun e he => hlt e (List.mem_cons_of_mem _ he)
    have hhead : ((later ++ l').head?.map Prod.fst = some i) ↔
        later.head?.map Prod.fst = some i := by
      cases later with
      | cons e later => exact Iff.rfl
      | nil =>
        cases l' with
        | nil => exact Iff.rfl
        | cons b l' =>
          have hne := (hlt (i, a) List.mem_cons_self b List.mem_cons_self).ne'
          simpa using hne
    rw [List.cons_append, sweep, sweep, List.foldl_cons]
    by_cases hsame : later.head?.map Prod.fst = some i
    · rw [if_pos hsame, if_pos (hhead.mpr hsame), sweep_append hrest]
    · rw [if_neg hsame, if_neg (fun h => hsame (hhead.mp h)), sweep_append hrest]

end Fallible
