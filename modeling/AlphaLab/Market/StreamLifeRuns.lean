/-
  When a stream ends.

  * `Kept` is the invariant of a stream's life, `Kept.step` what one step keeps of it and of
    the lawfulness of what was done;
  * `ends_lawfully_iff`: a stream's life is lawful exactly when no attempt is refused while
    others are left and nobody stops it;
  * `refused_attempt_ends_stream`: the first attempt that is refused ends it.
-/
import AlphaLab.Market.StreamLife
import AlphaLab.Market.StreamRuns

namespace AlphaLab

open Fallible

variable {β α : Type} {c : StreamConfig β α}

section
variable {l : List StreamAct} {a : StreamAct}

def Gone (l : List StreamAct) : Prop :=
  l.getLast? = some .dropped ∨ l.getLast? = some .refused

theorem right_returned {stopped : Bool} :
    Right c l (.returned stopped) ↔ (stopped = false → Spent c (l.count .attempted)) := by
  constructor
  · rintro ⟨hreturned, -, -⟩ rfl
    exact hreturned rfl
  · intro h
    refine ⟨fun hsame => h (StreamAct.returned.inj hsame), ?_, fun _ => Or.inr ⟨_, rfl⟩⟩
    intro connection hsame
    cases hsame

theorem right_attempted : Right c l .attempted :=
  ⟨fun h => (nomatch h), fun _ h => (nomatch h), fun _ => Or.inl rfl⟩

theorem right_of_not_gone (hgone : ¬ Gone l) (hreturned : a ≠ .returned false)
    (hpolled : ∀ connection, a ≠ .polled connection) : Right c l a :=
  ⟨fun h => absurd h hreturned, fun connection h => absurd h (hpolled connection),
    fun h => absurd h hgone⟩

theorem not_gone_append (hdropped : a ≠ .dropped) (hrefused : a ≠ .refused) :
    ¬ Gone (l ++ [a]) := by
  rintro (h | h) <;> rw [List.getLast?_concat, Option.some.injEq] at h
  · exact hdropped h
  · exact hrefused h

end

namespace StreamLife

variable {s s' : StreamLife β} {i : StreamInput β}

/-! ## One step -/

def pending : StreamPhase β → ℕ
  | .waited => 1
  | _ => 0

def Reads : StreamPhase β → Prop
  | .looping | .polling | .polled _ => True
  | _ => False

def Reopens : StreamPhase β → Prop
  | .reconnecting | .waited => True
  | _ => False

/-- **The invariant of a stream's life.** -/
structure Kept (c : StreamConfig β α) (s : StreamLife β) : Prop where
  counted : s.source.stopped = false →
    s.source.stats.reconnects = s.acts.count .attempted + pending s.phase
  bounded : ∀ limit, c.maxReconnects = some limit → (s.source.stats.reconnects : ℤ) ≤ max limit 0
  subscribed : Reads s.phase → .subscribed s.opened ∈ s.acts
  gone : Gone s.acts → Reopens s.phase

theorem kept_initial : Kept c (initial : StreamLife β) := by
  refine ⟨fun _ => rfl, fun limit _ => le_max_right _ _, fun h => h.elim, ?_⟩
  rintro (h | h) <;> cases h

def Goes (c : StreamConfig β α) (s s' : StreamLife β) : Prop :=
  Kept c s' ∧ (Lawful c s.acts → Lawful c s'.acts)

theorem Kept.returns (h : Kept c s)
    (hends : s.source.stopped = false →
      pending s.phase = 0 ∧ Spent c s.source.stats.reconnects) : Goes c s s.returns := by
  have hcounted : s.source.stopped = false →
      s.source.stats.reconnects = s.acts.count .attempted := by
    intro hstopped
    have hcounted := h.counted hstopped
    rwa [(hends hstopped).1, add_zero] at hcounted
  refine ⟨⟨fun hstopped => ?_, h.bounded, fun hreads => hreads.elim, fun hgone => ?_⟩,
    fun hlawful => Chronicle.append_singleton.mpr ⟨hlawful, right_returned.mpr fun hstopped => ?_⟩⟩
  · rw [StreamLife.returns, act, List.count_append]
    exact hcounted hstopped
  · exact absurd hgone (not_gone_append (by simp) (by simp))
  · rw [← hcounted hstopped]
    exact (hends hstopped).2

theorem Kept.raises (h : Kept c s) (hpending : pending s.phase = 0) (hreopens : ¬ Reopens s.phase) :
    Goes c s s.raises := by
  refine ⟨⟨fun hstopped => ?_, h.bounded, fun hreads => hreads.elim, fun hgone => ?_⟩,
    fun hlawful => Chronicle.append_singleton.mpr ⟨hlawful,
      right_of_not_gone (fun hgone => hreopens (h.gone hgone)) (by simp) (by simp)⟩⟩
  · have hcounted := h.counted hstopped
    rw [hpending, add_zero] at hcounted
    rw [StreamLife.raises, act, List.count_append]
    exact hcounted
  · exact absurd hgone (not_gone_append (by simp) (by simp))

/-- An act of a reader who is in no middle of reopening. -/
theorem Kept.acts (h : Kept c s) {a : StreamAct} {phase : StreamPhase β} {opened : ℕ}
    {closed : Bool} (hpending : pending s.phase = 0) (hpending' : pending phase = 0)
    (hright : Right c s.acts a) (hattempted : a ≠ .attempted)
    (hreads : Reads phase → .subscribed opened ∈ s.acts ++ [a])
    (hgone : a = .dropped ∨ a = .refused → Reopens phase) :
    Goes c s { s.act a with phase := phase, opened := opened, closed := closed } := by
  refine ⟨⟨fun hstopped => ?_, h.bounded, hreads, fun hlast => ?_⟩,
    fun hlawful => Chronicle.append_singleton.mpr ⟨hlawful, hright⟩⟩
  · have hcounted := h.counted hstopped
    rw [hpending, add_zero] at hcounted
    rw [act, List.count_append, List.count_singleton, hpending']
    simpa [hattempted] using hcounted
  · by_contra hnot
    exact not_gone_append (fun hsame => hnot (hgone (Or.inl hsame)))
      (fun hsame => hnot (hgone (Or.inr hsame))) hlast

def Same (source source' : StreamSource) : Prop :=
  source'.stats.reconnects = source.stats.reconnects ∧ source'.stopped = source.stopped

variable (source : StreamSource) (now : Instant)

theorem sequenceAdmits_same (symbol : String) (f : SequenceField) :
    Same source (source.sequenceAdmits symbol f).1 := by
  cases f with
  | absent => exact ⟨rfl, rfl⟩
  | other => exact ⟨rfl, rfl⟩
  | number raw =>
    rw [StreamSource.sequenceAdmits]
    cases source.sequences.get? symbol with
    | none => exact ⟨rfl, rfl⟩
    | some last =>
      dsimp only
      split_ifs <;> exact ⟨rfl, rfl⟩

theorem admitted_same (kind : MessageKind) (symbol : String) (body : β) :
    Same source (source.admitted c now kind symbol body).1 := by
  rw [StreamSource.admitted]
  cases c.normalize kind symbol body with
  | none => exact ⟨rfl, rfl⟩
  | some canonical =>
    dsimp only
    split <;> exact ⟨rfl, rfl⟩

theorem recordFrom_same (m : WireMessage β) : Same source (source.recordFrom c now m).1 := by
  cases m with
  | unreadable => exact ⟨rfl, rfl⟩
  | object p =>
    have hmarket : p.kind.isMarket = true → Same source (source.recordFrom c now (.object p)).1 := by
      intro hkind
      cases hsymbol : p.symbol with
      | none =>
        have hout : source.recordFrom c now (.object p) = (source.countMalformed, .dropped) := by
          cases hp : p.kind <;> simp_all [StreamSource.recordFrom, MessageKind.isMarket]
        rw [hout]
        exact ⟨rfl, rfl⟩
      | some symbol =>
        by_cases hempty : symbol = ""
        · have hout : source.recordFrom c now (.object p) = (source.countMalformed, .dropped) := by
            cases hp : p.kind <;> simp_all [StreamSource.recordFrom, MessageKind.isMarket]
          rw [hout]
          exact ⟨rfl, rfl⟩
        · rw [StreamSource.recordFrom_market hkind hsymbol hempty]
          obtain ⟨hreconnects, hstopped⟩ := sequenceAdmits_same source symbol p.sequence
          split_ifs
          · obtain ⟨hreconnects', hstopped'⟩ := admitted_same (c := c)
              (source.sequenceAdmits symbol p.sequence).1 now p.kind symbol p.body
            exact ⟨hreconnects'.trans hreconnects, hstopped'.trans hstopped⟩
          · exact ⟨hreconnects, hstopped⟩
    cases hkind : p.kind with
    | quote => exact hmarket (by rw [hkind]; rfl)
    | trade => exact hmarket (by rw [hkind]; rfl)
    | bar => exact hmarket (by rw [hkind]; rfl)
    | heartbeat => simp [StreamSource.recordFrom, hkind, Same, StreamSource.counting]
    | subscribed => simp [StreamSource.recordFrom, hkind, Same]
    | error => simp [StreamSource.recordFrom, hkind, Same, StreamSource.counting]
    | other => simp [StreamSource.recordFrom, hkind, Same, StreamSource.countMalformed,
        StreamSource.counting]
    | unhashable => simp [StreamSource.recordFrom, hkind, Same]

theorem Kept.moves (h : Kept c s) {source : StreamSource} {phase : StreamPhase β} {closed : Bool}
    (hsame : Same s.source source) (hpending : pending phase = pending s.phase)
    (hreads : Reads phase → Reads s.phase) (hreopens : Reopens s.phase → Reopens phase) :
    Goes c s { s with source := source, phase := phase, closed := closed } := by
  refine ⟨⟨fun hstopped => ?_, fun limit hlimit => ?_, fun hphase => h.subscribed (hreads hphase),
    fun hgone => hreopens (h.gone hgone)⟩, id⟩
  · rw [hsame.1, hpending]
    exact h.counted (hsame.2 ▸ hstopped)
  · rw [hsame.1]
    exact h.bounded limit hlimit

theorem Kept.received (h : Kept c s) (hreads : Reads s.phase) (now : Instant)
    (m : WireMessage β) : Goes c s (s.received c now m) := by
  have hphase : pending s.phase = 0 ∧ ¬ Reopens s.phase := by
    cases hp : s.phase <;> rw [hp] at hreads <;> first | exact hreads.elim | exact ⟨rfl, id⟩
  have hsame := recordFrom_same (c := c)
    (s.source.counting fun n => { n with received := n.received + 1 }) now m
  rw [StreamLife.received]
  generalize (s.source.counting fun n => { n with received := n.received + 1 }).recordFrom c now m =
    out at hsame
  obtain ⟨source, handled⟩ := out
  have hreopens : Reopens s.phase → Reopens (β := β) .looping := fun hr => absurd hr hphase.2
  cases handled with
  | dropped => exact h.moves hsame hphase.1.symm (fun _ => hreads) hreopens
  | record r => exact h.moves hsame hphase.1.symm (fun _ => hreads) hreopens
  | raised =>
    have hkept : Kept c { s with source := source } := (h.moves hsame rfl id id).1
    exact hkept.raises hphase.1 hphase.2

theorem Kept.unconnected (h : Kept c s) (hpending : pending s.phase = 0)
    (hreopens : ¬ Reopens s.phase) :
    Kept c (s.unconnected true) ∧ (Lawful c s.acts → (Lawful c (s.unconnected true).acts ↔
      (s.source.stopped = true ∨ Spent c s.source.stats.reconnects))) := by
  have hacts : (s.unconnected true).acts =
      s.acts ++ [.refused] ++ [.returned s.source.stopped] := rfl
  have hcounted : s.source.stopped = false →
      s.source.stats.reconnects = (s.acts ++ [StreamAct.refused]).count StreamAct.attempted := by
    intro hstopped
    have hcounted := h.counted hstopped
    rw [hpending, add_zero] at hcounted
    rwa [List.count_append]
  refine ⟨⟨fun hstopped => ?_, h.bounded, fun hreads => hreads.elim, fun hgone => ?_⟩,
    fun hlawful => ?_⟩
  · rw [hacts, List.count_append]
    exact hcounted hstopped
  · rw [hacts] at hgone
    exact absurd hgone (not_gone_append (by simp) (by simp))
  · rw [hacts, Lawful, Chronicle.append_singleton, Chronicle.append_singleton, right_returned]
    have hrefused : Right c s.acts .refused :=
      right_of_not_gone (fun hgone => hreopens (h.gone hgone)) (by simp) (by simp)
    constructor
    · rintro ⟨-, hends⟩
      cases hstopped : s.source.stopped with
      | true => exact Or.inl rfl
      | false =>
        rw [hcounted hstopped]
        exact Or.inr (hends hstopped)
    · rintro (hstopped | hspent)
      · exact ⟨⟨hlawful, hrefused⟩, fun hnot => by rw [hstopped] at hnot; cases hnot⟩
      · exact ⟨⟨hlawful, hrefused⟩, fun hnot => hcounted hnot ▸ hspent⟩

theorem Goes.lawful_iff (hgoes : Goes c s s') (hrefuses : ¬ s.Refuses i) :
    Kept c s' ∧ (Lawful c s.acts → (Lawful c s'.acts ↔ Meets c s i)) :=
  ⟨hgoes.1, fun hlawful => ⟨fun _ hnot => absurd hnot hrefuses, fun _ => hgoes.2 hlawful⟩⟩

theorem Kept.stopped (h : Kept c s) (hstopped : s.source.stopped = true) : Goes c s s.returns :=
  h.returns fun hnot => by
    rw [hstopped] at hnot
    cases hnot

/-- `_reconnect` gives up when the attempts are spent, or counts another. -/
theorem Kept.reconnect (h : Kept c s) (hphase : s.phase = .reconnecting) :
    Goes c s (s.reconnect c) := by
  have hpending : pending s.phase = 0 := by rw [hphase]; rfl
  rw [StreamLife.reconnect]
  by_cases hspent : c.maxReconnects.any (fun limit => limit ≤ (s.source.stats.reconnects : ℤ)) = true
  · rw [if_pos hspent]
    obtain ⟨limit, hlimit, hle⟩ := (Option.any_eq_true _ _).mp hspent
    refine h.returns fun _ => ⟨hpending, limit, hlimit, ?_⟩
    have hbounded := h.bounded limit hlimit
    rw [decide_eq_true_eq] at hle
    omega
  · rw [if_neg hspent]
    refine ⟨⟨fun hstopped => ?_, fun limit hlimit => ?_, fun hreads => hreads.elim,
      fun _ => trivial⟩, id⟩
    · have hcounted := h.counted hstopped
      rw [hpending, add_zero] at hcounted
      exact congrArg (· + 1) hcounted
    · have hless : ¬ limit ≤ (s.source.stats.reconnects : ℤ) := by simpa [hlimit] using hspent
      change ((s.source.stats.reconnects + 1 : ℕ) : ℤ) ≤ max limit 0
      push_cast
      omega

theorem Kept.polls (h : Kept c s) (hphase : s.phase = .looping) :
    Goes c s { s.act (.polled s.opened) with phase := .polling } := by
  have hsubscribed : .subscribed s.opened ∈ s.acts := h.subscribed (by rw [hphase]; trivial)
  have hgone : ¬ Gone s.acts := fun hgone => by
    have hreopens := h.gone hgone
    rw [hphase] at hreopens
    exact hreopens
  refine h.acts (by rw [hphase]; rfl) rfl ⟨?_, ?_, fun hlast => absurd hlast hgone⟩ (by simp)
    (fun _ => List.mem_append_left _ hsubscribed) (by simp)
  · intro hreturned
    cases hreturned
  · intro connection hsame
    rwa [← StreamAct.polled.inj hsame]

theorem Kept.attempts (h : Kept c s) (hphase : s.phase = .waited) :
    Goes c s { s.act .attempted with phase := .connecting true } := by
  refine ⟨⟨fun hstopped => ?_, h.bounded, fun hreads => hreads.elim, fun hgone => ?_⟩,
    fun hlawful => Chronicle.append_singleton.mpr ⟨hlawful, right_attempted⟩⟩
  · have hcounted := h.counted hstopped
    rw [hphase] at hcounted
    rw [act, List.count_append]
    exact hcounted
  · exact absurd hgone (not_gone_append (by simp) (by simp))

/-- **One step**: the invariant is kept, and what was done lawfully goes on lawfully just when
    the step meets the condition. -/
theorem Kept.step (h : Kept c s) (hstep : s.step c i = .ok s') :
    Kept c s' ∧ (Lawful c s.acts → (Lawful c s'.acts ↔ Meets c s i)) := by
  cases i with
  | records =>
    simp only [StreamLife.step] at hstep
    split at hstep
    · next hphase =>
      obtain rfl := Except.ok.inj hstep
      refine Goes.lawful_iff (h.moves ⟨rfl, rfl⟩ ?_ ?_ ?_) (by simp [Refuses])
      all_goals rw [hphase]
      · rfl
      · exact id
      · exact id
    · cases hstep
  | stop =>
    obtain rfl := Except.ok.inj hstep
    refine ⟨⟨?_, h.bounded, h.subscribed, h.gone⟩, fun hlawful => ?_⟩
    · intro hstopped
      cases hstopped
    · exact ⟨fun _ hnot => by simp [Refuses] at hnot, fun _ => hlawful⟩
  | turn =>
    have hrefuses : ¬ s.Refuses .turn := by simp [Refuses]
    simp only [StreamLife.step] at hstep
    split at hstep
    · next hphase =>
      obtain rfl := Except.ok.inj hstep
      by_cases hstopped : s.source.stopped = true
      · rw [if_pos hstopped]
        exact (h.stopped hstopped).lawful_iff hrefuses
      · rw [if_neg hstopped]
        refine Goes.lawful_iff (h.moves ⟨rfl, rfl⟩ ?_ ?_ ?_) hrefuses
        all_goals rw [hphase]
        · rfl
        · exact id
        · exact id
    · next hphase =>
      obtain rfl := Except.ok.inj hstep
      by_cases hstopped : s.source.stopped = true
      · rw [if_pos hstopped]
        exact (h.stopped hstopped).lawful_iff hrefuses
      · rw [if_neg hstopped]
        exact (h.polls hphase).lawful_iff hrefuses
    · next hphase =>
      obtain rfl := Except.ok.inj hstep
      exact (h.reconnect hphase).lawful_iff hrefuses
    · next hphase =>
      obtain rfl := Except.ok.inj hstep
      by_cases hstopped : s.source.stopped = true
      · rw [if_pos hstopped]
        exact (h.stopped hstopped).lawful_iff hrefuses
      · rw [if_neg hstopped]
        exact (h.attempts hphase).lawful_iff hrefuses
    · cases hstep
  | connected opened =>
    simp only [StreamLife.step] at hstep
    split at hstep
    · next reopening hphase =>
      obtain rfl := Except.ok.inj hstep
      have hpending : pending s.phase = 0 := by rw [hphase]; rfl
      have hreopens : ¬ Reopens s.phase := by rw [hphase]; exact id
      have hright : Right c s.acts (.opened (s.opened + 1)) :=
        right_of_not_gone (fun hgone => hreopens (h.gone hgone)) (by simp) (by simp)
      cases opened with
      | true =>
        rw [if_pos rfl]
        exact Goes.lawful_iff (h.acts hpending rfl hright (by simp) (fun hreads => hreads.elim)
          (by simp)) (by simp [Refuses])
      | false =>
        rw [if_neg (by simp)]
        cases reopening with
        | true =>
          obtain ⟨hkept, hlawful⟩ := h.unconnected hpending hreopens
          refine ⟨hkept, fun hbefore => (hlawful hbefore).trans ?_⟩
          simp [Meets, Refuses, hphase]
        | false => exact (h.raises hpending hreopens).lawful_iff (by simp [Refuses, hphase])
    · cases hstep
  | sent accepted =>
    simp only [StreamLife.step] at hstep
    split at hstep
    · next reopening hphase =>
      obtain rfl := Except.ok.inj hstep
      have hpending : pending s.phase = 0 := by rw [hphase]; rfl
      have hreopens : ¬ Reopens s.phase := by rw [hphase]; exact id
      have hright : Right c s.acts (.subscribed s.opened) :=
        right_of_not_gone (fun hgone => hreopens (h.gone hgone)) (by simp) (by simp)
      cases accepted with
      | true =>
        rw [if_pos rfl]
        exact Goes.lawful_iff (h.acts hpending rfl hright (by simp)
          (fun _ => List.mem_append_right _ List.mem_cons_self) (by simp)) (by simp [Refuses])
      | false =>
        rw [if_neg (by simp)]
        cases reopening with
        | true =>
          obtain ⟨hkept, hlawful⟩ := h.unconnected hpending hreopens
          refine ⟨hkept, fun hbefore => (hlawful hbefore).trans ?_⟩
          simp [Meets, Refuses, hphase]
        | false => exact (h.raises hpending hreopens).lawful_iff (by simp [Refuses, hphase])
    · cases hstep
  | polled outcome =>
    simp only [StreamLife.step] at hstep
    split at hstep
    · next hphase =>
      obtain rfl := Except.ok.inj hstep
      have hgoes : ∀ message closed, Goes c s { s with phase := .polled message, closed := closed } := by
        intro message closed
        refine h.moves ⟨rfl, rfl⟩ ?_ ?_ ?_
        all_goals rw [hphase]
        · rfl
        · exact id
        · exact id
      cases outcome <;> exact Goes.lawful_iff (hgoes _ _) (by simp [Refuses])
    · cases hstep
  | judged late =>
    simp only [StreamLife.step] at hstep
    split at hstep
    · next message hphase =>
      obtain rfl := Except.ok.inj hstep
      refine Goes.lawful_iff ?_ (by simp [Refuses])
      have hreads : Reads s.phase := by rw [hphase]; trivial
      have hreopens : ¬ Reopens s.phase := by rw [hphase]; exact id
      unfold StreamLife.judged
      by_cases hdropped : s.closed = true ∧ ¬ s.source.stopped = true
      · rw [if_pos hdropped]
        exact h.acts (by rw [hphase]; rfl) rfl
          (right_of_not_gone (fun hgone => hreopens (h.gone hgone)) (by simp) (by simp))
          (by simp) (fun hnot => hnot.elim) (fun _ => trivial)
      · rw [if_neg hdropped]
        cases message with
        | none =>
          refine h.moves ⟨rfl, rfl⟩ ?_ (fun _ => hreads) (fun hnot => absurd hnot hreopens)
          rw [hphase]
          rfl
        | some read => exact h.received hreads read.1 read.2
    · cases hstep

/-! ## A life -/

theorem prefix_returns : s.acts <+: s.returns.acts := List.prefix_append _ _

theorem prefix_unconnected (reopening : Bool) : s.acts <+: (s.unconnected reopening).acts := by
  cases reopening with
  | false => exact List.prefix_append _ _
  | true => exact ⟨[.refused, .returned s.source.stopped], by simp [unconnected, returns, act]⟩

theorem prefix_reconnect : s.acts <+: (s.reconnect c).acts := by
  rw [StreamLife.reconnect]
  split_ifs
  · exact prefix_returns
  · exact List.prefix_rfl

theorem prefix_judged (message : Option (Instant × WireMessage β)) (late : Bool) :
    s.acts <+: (s.judged c message late).acts := by
  unfold StreamLife.judged
  split_ifs
  · exact List.prefix_append _ _
  · cases message with
    | none => exact List.prefix_rfl
    | some read =>
      dsimp only
      rw [StreamLife.received]
      split
      · exact List.prefix_rfl
      · exact List.prefix_append _ _
      · exact List.prefix_rfl

theorem prefix_step (hstep : s.step c i = .ok s') : s.acts <+: s'.acts := by
  cases i with
  | records =>
    simp only [StreamLife.step] at hstep
    split at hstep
    · obtain rfl := Except.ok.inj hstep
      exact List.prefix_rfl
    · cases hstep
  | stop =>
    obtain rfl := Except.ok.inj hstep
    exact List.prefix_rfl
  | turn =>
    simp only [StreamLife.step] at hstep
    split at hstep
    · obtain rfl := Except.ok.inj hstep
      split_ifs
      · exact prefix_returns
      · exact List.prefix_rfl
    · obtain rfl := Except.ok.inj hstep
      split_ifs
      · exact prefix_returns
      · exact List.prefix_append _ _
    · obtain rfl := Except.ok.inj hstep
      exact prefix_reconnect
    · obtain rfl := Except.ok.inj hstep
      split_ifs
      · exact prefix_returns
      · exact List.prefix_append _ _
    · cases hstep
  | connected opened =>
    simp only [StreamLife.step] at hstep
    split at hstep
    · obtain rfl := Except.ok.inj hstep
      split_ifs
      · exact List.prefix_append _ _
      · exact prefix_unconnected _
    · cases hstep
  | sent accepted =>
    simp only [StreamLife.step] at hstep
    split at hstep
    · obtain rfl := Except.ok.inj hstep
      split_ifs
      · exact List.prefix_append _ _
      · exact prefix_unconnected _
    · cases hstep
  | polled outcome =>
    simp only [StreamLife.step] at hstep
    split at hstep
    · obtain rfl := Except.ok.inj hstep
      cases outcome <;> exact List.prefix_rfl
    · cases hstep
  | judged late =>
    simp only [StreamLife.step] at hstep
    split at hstep
    · obtain rfl := Except.ok.inj hstep
      exact prefix_judged _ _
    · cases hstep

def AllMeet (c : StreamConfig β α) (inputs : List (StreamInput β)) : Prop :=
  Chronicle (fun before i => ∀ t, before.foldlM (step c) initial = .ok t → Meets c t i) inputs

/-- **A stream's life is lawful exactly when no attempt is refused while others are left** and
    nobody has stopped it. -/
theorem ends_lawfully_iff {inputs : List (StreamInput β)}
    (hrun : inputs.foldlM (step c) initial = .ok s) : Lawful c s.acts ↔ AllMeet c inputs := by
  have hlife : Kept c s ∧ (Lawful c s.acts ↔ AllMeet c inputs) := by
    induction inputs using List.reverseRecOn generalizing s with
    | nil =>
      rw [List.foldlM_nil, pure_ok] at hrun
      subst hrun
      exact ⟨kept_initial, fun _ => Chronicle.nil, fun _ => Chronicle.nil⟩
    | append_singleton inputs i ih =>
      rw [List.foldlM_append, bind_ok] at hrun
      obtain ⟨t, ht, hlast⟩ := hrun
      rw [List.foldlM_cons, bind_ok] at hlast
      obtain ⟨u, hstep, hu⟩ := hlast
      rw [List.foldlM_nil, pure_ok] at hu
      subst hu
      obtain ⟨hkept, hiff⟩ := ih ht
      obtain ⟨hkept', hstep'⟩ := hkept.step hstep
      refine ⟨hkept', ?_⟩
      rw [AllMeet, Chronicle.append_singleton]
      constructor
      · intro hlawful
        obtain ⟨more, hmore⟩ := prefix_step hstep
        have hbefore : Lawful c t.acts := Chronicle.of_append (hmore ▸ hlawful)
        refine ⟨hiff.mp hbefore, fun t' ht' => ?_⟩
        obtain rfl := Except.ok.inj (ht.symm.trans ht')
        exact (hstep' hbefore).mp hlawful
      · rintro ⟨hbefore, hmeets⟩
        exact (hstep' (hiff.mpr hbefore)).mpr (hmeets t ht)
  exact hlife.2

/-- A stream of nothing, which is not normalized, and that reopens as often as said. -/
def unlimited (maxReconnects : Option ℤ) : StreamConfig Unit Unit :=
  ⟨"venue", fun _ _ _ => none, maxReconnects, none⟩

/-- A stream that drops and is reopened, and drops again with its one attempt spent. -/
def droppedTwice : List (StreamInput Unit) :=
  [.records, .turn, .connected true, .sent true, .turn, .polled .closed, .judged false,
    .turn, .turn, .connected true, .sent true, .turn, .polled .failed, .judged false, .turn]

def refusedOnce : List (StreamInput Unit) :=
  [.records, .turn, .connected true, .sent true, .turn, .polled .closed, .judged false,
    .turn, .turn, .connected false]

theorem dropped_twice_ends_lawfully :
    ∃ s, droppedTwice.foldlM (step (unlimited (some 1))) initial = .ok s ∧
      s.acts.getLast? = some (.returned false) ∧
      (Lawful (unlimited (some 1)) s.acts ↔ AllMeet (unlimited (some 1)) droppedTwice) :=
  ⟨_, rfl, rfl, ends_lawfully_iff rfl⟩

/-- **The first attempt that is refused ends the stream**, with no limit to the attempts and
    nobody having stopped it. -/
theorem refused_attempt_ends_stream :
    ∃ s, refusedOnce.foldlM (step (unlimited none)) initial = .ok s ∧
      s.acts = [.opened 1, .subscribed 1, .polled 1, .dropped, .attempted, .refused,
        .returned false] ∧ ¬ Lawful (unlimited none) s.acts := by
  refine ⟨_, rfl, rfl, fun hlawful => ?_⟩
  obtain ⟨hreturned, -, -⟩ := hlawful
    [.opened 1, .subscribed 1, .polled 1, .dropped, .attempted, .refused] _ [] rfl
  obtain ⟨limit, hlimit, -⟩ := hreturned rfl
  cases hlimit

end StreamLife

end AlphaLab
