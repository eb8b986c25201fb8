/-
  Which messages can end a session.

  * `Harmless` is what a message must be for nothing to be raised, in the order in which the
    source looks at it;
  * `recordFromText_counted`: a message that raises nothing is a record, or is counted once;
  * `recordFromText_ok_iff`: every message that is harmless is, and no other.
-/
import AlphaLab.Market.Messages
import AlphaLab.Market.StreamRuns

namespace AlphaLab

open Fallible

/-! ## What escapes -/

def Contained {α : Type} (x : Except Unnormalized α) : Prop := ∀ e, x ≠ .error (.escaped e)

section
variable {α γ : Type} {x : Except Unnormalized α} {f : α → Except Unnormalized γ}

theorem contained_ok (a : α) : Contained (.ok a) := fun _ h => nomatch h

theorem contained_rejected : Contained (.error .rejected : Except Unnormalized α) := by
  intro e h
  cases h

theorem contained_bind : Contained (x >>= f) ↔ Contained x ∧ ∀ a, x = .ok a → Contained (f a) := by
  cases x with
  | ok a =>
    constructor
    · intro h
      refine ⟨contained_ok a, fun b hb => ?_⟩
      obtain rfl := Except.ok.inj hb
      exact h
    · rintro ⟨-, h⟩
      exact h a rfl
  | error e =>
    constructor
    · intro h
      refine ⟨fun e' he => h e' ?_, fun a ha => nomatch ha⟩
      rw [Except.error.inj he]
      rfl
    · rintro ⟨h, -⟩ e' he
      exact h e' (congrArg Except.error (Except.error.inj he))

theorem contained_require {p : Prop} [Decidable p] : Contained (require p .rejected) := by
  rw [require]
  split_ifs
  · exact contained_ok ()
  · exact contained_rejected

theorem contained_orRefuse {o : Option α} : Contained (orRefuse o .rejected) := by
  cases o with
  | none => exact contained_rejected
  | some a => exact contained_ok a

variable {a b : Number}

theorem contained_refuseLess : Contained (refuseLess a b) ↔ a ≠ .nan ∧ b ≠ .nan := by
  rw [refuseLess, contained_bind, comparedLess]
  by_cases h : a = .nan ∨ b = .nan
  · rw [if_pos h]
    constructor
    · rintro ⟨hnot, -⟩
      exact absurd rfl (hnot .invalidOperation)
    · rintro ⟨ha, hb⟩
      exact absurd h (not_or.mpr ⟨ha, hb⟩)
  · rw [if_neg h]
    exact ⟨fun _ => not_or.mp h, fun _ => ⟨contained_ok _, fun _ _ => contained_require⟩⟩

theorem refuseLess_ok {u : Unit} (h : refuseLess a b = .ok u) :
    a ≠ .nan ∧ b ≠ .nan ∧ a.below b = false := by
  rw [refuseLess, bind_ok] at h
  obtain ⟨less, hless, hrequire⟩ := h
  rw [comparedLess] at hless
  split_ifs at hless with hnan
  obtain rfl := Except.ok.inj hless
  exact ⟨(not_or.mp hnan).1, (not_or.mp hnan).2, require_ok.mp hrequire⟩

theorem refuseLess_of (ha : a ≠ .nan) (hb : b ≠ .nan) (h : a.below b = false) :
    refuseLess a b = .ok () := by
  rw [refuseLess, comparedLess, if_neg (not_or.mpr ⟨ha, hb⟩), h]
  rfl

end

/-! ## Fields -/

variable {kind : MessageKind}

namespace Python

variable {py : Python} {policy : NormalizationPolicy} {symbol : String}
  {fields : List (String × JsonValue)}

def Beyond (fields : List (String × JsonValue)) (name : String) : Prop :=
  ∃ n : ℤ, Dict.getList name fields = some (.int n) ∧ floatLimit ≤ n.natAbs

theorem contained_floatOfInt {n : ℤ} : Contained (py.floatOfInt n) ↔ n.natAbs < floatLimit := by
  rw [floatOfInt]
  split_ifs with h
  · constructor
    · intro hnot
      exact absurd rfl (hnot .overflow)
    · intro hlt
      exact absurd h hlt.not_ge
  · exact ⟨fun _ => not_le.mp h, fun _ => contained_ok _⟩

/-- **A field escapes `float` only as an integer out of range.** -/
theorem contained_readField {f : WireField} :
    Contained (py.readField fields f) ↔ ¬ Beyond fields f.1 := by
  rw [readField]
  cases hvalue : Dict.getList f.1 fields with
  | none =>
    have hnot : ¬ Beyond fields f.1 := by
      rintro ⟨n, hn, -⟩
      rw [hvalue] at hn
      cases hn
    cases f.2 with
    | none => exact ⟨fun _ => hnot, fun _ => contained_rejected⟩
    | some default => exact ⟨fun _ => hnot, fun _ => contained_ok default⟩
  | some value =>
    have hbeyond : Beyond fields f.1 ↔ ∃ n : ℤ, value = .int n ∧ floatLimit ≤ n.natAbs := by
      simp [Beyond, hvalue]
    rw [hbeyond]
    cases value with
    | int n =>
      simp [float, contained_floatOfInt]
    | null => simp [float, contained_rejected]
    | bool b => simp [float, contained_ok]
    | float x => simp [float, contained_ok]
    | str text => simp [float, contained_orRefuse]
    | array items => simp [float, contained_rejected]
    | object items => simp [float, contained_rejected]

def Convertible (py : Python) (fields : List (String × JsonValue)) : List WireField → Prop
  | [] => True
  | f :: later => ¬ Beyond fields f.1 ∧ ∀ x, py.readField fields f = .ok x →
      Convertible py fields later

def fieldsOf : MessageKind → List WireField
  | .quote => [("timestamp", none), ("bid", none), ("ask", none),
      ("bid_size", some (.finite 0)), ("ask_size", some (.finite 0))]
  | .trade => [("timestamp", none), ("price", none), ("size", none)]
  | _ => [("timestamp", none), ("open", none), ("high", none), ("low", none), ("close", none),
      ("volume", some (.finite 0))]

theorem contained_wireQuote :
    Contained (py.wireQuote symbol fields) ↔ Convertible py fields (fieldsOf .quote) := by
  simp only [wireQuote, contained_bind, contained_readField, fieldsOf, Convertible, pure,
    Except.pure, contained_ok, implies_true, and_true]

theorem contained_wireTrade :
    Contained (py.wireTrade symbol fields) ↔ Convertible py fields (fieldsOf .trade) := by
  simp only [wireTrade, contained_bind, contained_readField, fieldsOf, Convertible, pure,
    Except.pure, contained_ok, implies_true, and_true]

theorem contained_wireBar :
    Contained (py.wireBar symbol fields) ↔ Convertible py fields (fieldsOf .bar) := by
  simp only [wireBar, contained_bind, contained_readField, fieldsOf, Convertible, pure,
    Except.pure, contained_ok, implies_true, and_true]

/-! ## Wire records -/

/-- A quote that the policy lifts, and whose prices are in order, compares no NaN: neither
    size is one, where the second is looked at. -/
def QuoteSafe (policy : NormalizationPolicy) (w : Wire.Quote) : Prop :=
  (policy.resolveAt w.symbol w.timestamp).isSome = true → policy.currency.isSome = true →
    w.bid.isFinite = true → w.ask.isFinite = true → w.ask.below w.bid = false →
    w.bidSize ≠ .nan ∧ (w.bidSize.below (.finite 0) = false → w.askSize ≠ .nan)

def TradeSafe (policy : NormalizationPolicy) (w : Wire.Trade) : Prop :=
  (policy.resolveAt w.symbol w.timestamp).isSome = true → policy.currency.isSome = true →
    w.price.isFinite = true → w.size ≠ .nan

def Lengthed (policy : NormalizationPolicy) : Prop :=
  policy.barStamp = some .intervalStart → ∀ timeframe, policy.timeframe = some timeframe →
    ∀ perUnit, timeframe.unit.seconds? = some perUnit → timeframe.count * perUnit < floatLimit

def BarSafe (py : Python) (policy : NormalizationPolicy) (w : Wire.Bar) : Prop :=
  Lengthed policy ∧ ∀ «end», py.barEnd policy w.timestamp = .ok «end» →
    (policy.resolveAt w.symbol «end»).isSome = true → policy.timeframe.isSome = true →
    w.high ≠ .nan ∧ w.low ≠ .nan ∧ (w.high.below w.low = false → w.volume ≠ .nan)

theorem contained_requireTimestamp {timestamp : Number} : Contained (requireTimestamp timestamp) :=
  contained_require

theorem ne_nan_of_isFinite {x : Number} (h : x.isFinite = true) : x ≠ .nan := by
  rintro rfl
  cases h

theorem contained_size {size : Number} {later : Unit → Checking}
    (hlater : size ≠ .nan → size.below (.finite 0) = false → Contained (later ())) :
    Contained (refuseLess size (.finite 0) >>= later) ↔ size ≠ .nan := by
  rw [contained_bind, contained_refuseLess]
  refine ⟨fun h => h.1.1, fun h => ⟨⟨h, by simp⟩, fun u hu => ?_⟩⟩
  exact hlater h (refuseLess_ok hu).2.2

theorem contained_validateQuote {q : Canonical.Quote} :
    Contained q.validate ↔ (q.bid.isFinite = true → q.ask.isFinite = true →
      q.ask.below q.bid = false →
        q.bidSize ≠ .nan ∧ (q.bidSize.below (.finite 0) = false → q.askSize ≠ .nan)) := by
  have hsizes : Contained (do
      refuseLess q.bidSize (.finite 0)
      refuseLess q.askSize (.finite 0)
      requireTimestamp q.timestamp) ↔
      q.bidSize ≠ .nan ∧ (q.bidSize.below (.finite 0) = false → q.askSize ≠ .nan) := by
    have hask : Contained (refuseLess q.askSize (.finite 0) >>= fun _ =>
        requireTimestamp q.timestamp) ↔ q.askSize ≠ .nan :=
      contained_size fun _ _ => contained_requireTimestamp
    rw [contained_bind, contained_refuseLess]
    constructor
    · rintro ⟨⟨hbid, -⟩, h⟩
      exact ⟨hbid, fun hbelow => hask.mp (h () (refuseLess_of hbid (by simp) hbelow))⟩
    · rintro ⟨hbid, h⟩
      exact ⟨⟨hbid, by simp⟩, fun u hu => hask.mpr (h (refuseLess_ok hu).2.2)⟩
  rw [Canonical.Quote.validate, contained_bind]
  constructor
  · rintro ⟨-, h⟩ hbid hask hbelow
    obtain ⟨-, h⟩ := contained_bind.mp (h () (require_ok.mpr ⟨hbid, hask⟩))
    exact hsizes.mp (h () (refuseLess_of (ne_nan_of_isFinite hask) (ne_nan_of_isFinite hbid)
      hbelow))
  · intro h
    refine ⟨contained_require, fun u hu => ?_⟩
    obtain ⟨hbid, hask⟩ := require_ok.mp hu
    refine contained_bind.mpr ⟨contained_refuseLess.mpr
      ⟨ne_nan_of_isFinite hask, ne_nan_of_isFinite hbid⟩, fun u hu => ?_⟩
    exact hsizes.mpr (h hbid hask (refuseLess_ok hu).2.2)

theorem contained_validateTick {t : Canonical.Tick} :
    Contained t.validate ↔ (t.price.isFinite = true → t.quantity ≠ .nan) := by
  have hquantity : Contained (refuseLess t.quantity (.finite 0) >>= fun _ =>
      requireTimestamp t.timestamp) ↔ t.quantity ≠ .nan :=
    contained_size fun _ _ => contained_requireTimestamp
  rw [Canonical.Tick.validate, contained_bind]
  constructor
  · rintro ⟨-, h⟩ hprice
    exact hquantity.mp (h () (require_ok.mpr hprice))
  · intro h
    exact ⟨contained_require, fun u hu => hquantity.mpr (h (require_ok.mp hu))⟩

theorem contained_validateBar {b : Canonical.Bar} :
    Contained b.validate ↔
      b.high ≠ .nan ∧ b.low ≠ .nan ∧ (b.high.below b.low = false → b.volume ≠ .nan) := by
  have hvolume : Contained (refuseLess b.volume (.finite 0) >>= fun _ =>
      requireTimestamp b.timestamp) ↔ b.volume ≠ .nan :=
    contained_size fun _ _ => contained_requireTimestamp
  rw [Canonical.Bar.validate, contained_bind, contained_refuseLess]
  constructor
  · rintro ⟨⟨hhigh, hlow⟩, h⟩
    exact ⟨hhigh, hlow, fun hbelow => hvolume.mp (h () (refuseLess_of hhigh hlow hbelow))⟩
  · rintro ⟨hhigh, hlow, h⟩
    exact ⟨⟨hhigh, hlow⟩, fun u hu => hvolume.mpr (h (refuseLess_ok hu).2.2)⟩

theorem contained_some {α γ : Type} {o : Option α} {f : α → Except Unnormalized γ} {P : Prop}
    (h : ∀ a, o = some a → (Contained (f a) ↔ P)) :
    Contained (orRefuse o .rejected >>= f) ↔ (o.isSome = true → P) := by
  rw [contained_bind]
  cases o with
  | none =>
    constructor
    · intro _ hnot
      cases hnot
    · intro _
      exact ⟨contained_rejected, fun a ha => nomatch ha⟩
  | some a =>
    constructor
    · rintro ⟨-, hf⟩ -
      exact (h a rfl).mp (hf a rfl)
    · intro hP
      refine ⟨contained_ok a, fun b hb => ?_⟩
      obtain rfl := Except.ok.inj hb
      exact (h a rfl).mpr (hP rfl)

theorem contained_then {α : Type} {x : Checking} {a : α} :
    Contained (x >>= fun _ => pure a) ↔ Contained x := by
  rw [contained_bind]
  exact ⟨fun h => h.1, fun h => ⟨h, fun _ _ => contained_ok a⟩⟩

theorem contained_normalizeWireQuote {w : Wire.Quote} :
    Contained (normalizeWireQuote policy w) ↔ QuoteSafe policy w := by
  rw [normalizeWireQuote, QuoteSafe]
  refine contained_some fun assetId _ => contained_some fun currency _ => ?_
  exact contained_then.trans contained_validateQuote

theorem contained_normalizeWireTrade {w : Wire.Trade} :
    Contained (normalizeWireTrade policy w) ↔ TradeSafe policy w := by
  rw [normalizeWireTrade, TradeSafe]
  refine contained_some fun assetId _ => contained_some fun currency _ => ?_
  exact contained_then.trans contained_validateTick

theorem contained_barEnd {timestamp : Number} :
    Contained (py.barEnd policy timestamp) ↔ Lengthed policy := by
  rw [barEnd, Lengthed]
  cases policy.barStamp with
  | none => simp [orRefuse, contained_bind, contained_rejected]
  | some stamp =>
    cases stamp with
    | intervalEnd => simp [orRefuse, contained_bind, contained_ok, pure, Except.pure]
    | intervalStart =>
      change Contained (orRefuse policy.timeframe .rejected >>= fun timeframe =>
        py.timeframeSeconds timeframe >>= fun seconds => pure (py.plus timestamp seconds)) ↔ _
      have hseconds : ∀ timeframe : TimeFrame, Contained (py.timeframeSeconds timeframe) ↔
          ∀ perUnit, timeframe.unit.seconds? = some perUnit →
            timeframe.count * perUnit < floatLimit := by
        intro timeframe
        rw [timeframeSeconds, contained_bind]
        simp only [contained_orRefuse, orRefuse_ok, contained_floatOfInt, Int.natAbs_natCast,
          true_and]
      simp only [contained_bind, contained_orRefuse, orRefuse_ok, hseconds, pure, Except.pure,
        contained_ok, implies_true, and_true, true_and, forall_const]

theorem contained_normalizeWireBar {w : Wire.Bar} :
    Contained (py.normalizeWireBar policy w) ↔ BarSafe py policy w := by
  rw [normalizeWireBar, BarSafe, contained_bind, contained_barEnd]
  refine and_congr_right fun _ => forall_congr' fun «end» => forall_congr' fun _ => ?_
  refine contained_some fun assetId _ => contained_some fun timeframe _ => ?_
  exact contained_then.trans contained_validateBar

/-- **What a message of market data must be** for its normalization to let nothing out. -/
def Normalizable (py : Python) (policy : NormalizationPolicy) (symbol : String)
    (fields : List (String × JsonValue)) : MessageKind → Prop
  | .quote => Convertible py fields (fieldsOf .quote) ∧
      ∀ w, py.wireQuote symbol fields = .ok w → QuoteSafe policy w
  | .trade => Convertible py fields (fieldsOf .trade) ∧
      ∀ w, py.wireTrade symbol fields = .ok w → TradeSafe policy w
  | _ => Convertible py fields (fieldsOf .bar) ∧
      ∀ w, py.wireBar symbol fields = .ok w → BarSafe py policy w

theorem contained_normalize :
    Contained (py.normalize policy symbol fields kind) ↔
      Normalizable py policy symbol fields kind := by
  have hbar : Contained (py.wireBar symbol fields >>= fun w => py.normalizeWireBar policy w) ↔
      Convertible py fields (fieldsOf .bar) ∧
        ∀ w, py.wireBar symbol fields = .ok w → BarSafe py policy w := by
    simp only [contained_bind, contained_wireBar, contained_normalizeWireBar]
  cases kind with
  | quote =>
    simp only [normalize, Normalizable, contained_bind, contained_wireQuote,
      contained_normalizeWireQuote]
  | trade =>
    simp only [normalize, Normalizable, contained_bind, contained_wireTrade,
      contained_normalizeWireTrade]
  | bar => exact hbar
  | heartbeat => exact hbar
  | subscribed => exact hbar
  | error => exact hbar
  | other => exact hbar
  | unhashable => exact hbar

end Python

/-! ## A message -/

namespace StreamSource

variable (py : Python) (c : SourceConfig) (s : StreamSource) (now : Instant) (text : String)

structure Admitted (kind : MessageKind) (symbol : String) (fields : List (String × JsonValue)) :
    Prop where
  loaded : py.loads text = .value (.object fields)
  typed : kindOf (Dict.getList "type" fields) = kind
  market : kind.isMarket = true
  named : symbolOf (Dict.getList "symbol" fields) = some symbol
  sequenced : (s.sequenceAdmits symbol (sequenceOf (Dict.getList "sequence" fields))).2 = true

/-- **A message that nothing can be raised for.**  What is asked of its fields is asked only
    where they are looked at. -/
structure Harmless : Prop where
  loads : py.loads text ≠ .failed
  kind : ∀ fields, py.loads text = .value (.object fields) →
    kindOf (Dict.getList "type" fields) ≠ .unhashable
  normalizable : ∀ kind symbol fields, s.Admitted py text kind symbol fields →
    py.Normalizable c.policy symbol fields kind
  age : ∀ kind symbol fields input, s.Admitted py text kind symbol fields →
    py.normalize c.policy symbol fields kind = .ok input →
    ∀ limit, c.maxRecordAge = some limit → 0 ≤ limit

inductive Counter where
  | duplicates | malformed | stale | heartbeats | errors
deriving DecidableEq

def Counter.of (n : StreamStats) : Counter → ℕ
  | duplicates => n.duplicates
  | malformed => n.malformed
  | stale => n.stale
  | heartbeats => n.heartbeats
  | errors => n.errors

def Skips : Prop :=
  ∃ kind symbol fields raw last, s.Admitted py text kind symbol fields ∧
    sequenceOf (Dict.getList "sequence" fields) = .number raw ∧
    s.sequences.get? symbol = some last ∧ last + 1 < raw

def Acknowledges : Prop :=
  ∃ fields, py.loads text = .value (.object fields) ∧
    kindOf (Dict.getList "type" fields) = .subscribed

/-- **A message is counted once**, if it is no record and acknowledges no subscription, and so
    is a gap. -/
structure Counted (s' : StreamSource) (record : Option StreamedRecord) : Prop where
  once : record = none → ¬ Acknowledges py text →
    ∃ counted, ∀ counter : Counter,
      counter.of s'.stats = counter.of s.stats + if counter = counted then 1 else 0
  none : record.isSome = true ∨ Acknowledges py text →
    ∀ counter : Counter, counter.of s'.stats = counter.of s.stats
  gaps : s.Skips py text → s'.stats.gaps = s.stats.gaps + 1
  noGaps : ¬ s.Skips py text → s'.stats.gaps = s.stats.gaps

variable {py c s now text}

def CountsOn (counted : Counter) (s s' : StreamSource) : Prop :=
  ∀ counter : Counter, counter.of s'.stats = counter.of s.stats + if counter = counted then 1 else 0

def CountsSame (s s' : StreamSource) : Prop :=
  ∀ counter : Counter, counter.of s'.stats = counter.of s.stats

theorem countsOn_malformed : CountsOn .malformed s s.countMalformed := by
  intro counter
  cases counter <;> rfl

def Skipped (s : StreamSource) (symbol : String) (f : SequenceField) : Prop :=
  ∃ raw last, f = .number raw ∧ s.sequences.get? symbol = some last ∧ last + 1 < raw

theorem sequenceAdmits_counts (s : StreamSource) (symbol : String) (f : SequenceField) :
    let out := s.sequenceAdmits symbol f
    (out.2 = true → CountsSame s out.1 ∧
      (Skipped s symbol f → out.1.stats.gaps = s.stats.gaps + 1) ∧
      (¬ Skipped s symbol f → out.1.stats.gaps = s.stats.gaps)) ∧
    (out.2 = false → (∃ counted, CountsOn counted s out.1) ∧
      out.1.stats.gaps = s.stats.gaps) := by
  cases f with
  | absent =>
    refine ⟨fun _ => ⟨fun _ => rfl, ?_, fun _ => rfl⟩, (fun h => nomatch h)⟩
    rintro ⟨raw, last, h, -⟩
    cases h
  | other =>
    exact ⟨(fun h => nomatch h), fun _ => ⟨⟨.malformed, countsOn_malformed⟩, rfl⟩⟩
  | number raw =>
    have hskipped : Skipped s symbol (.number raw) ↔
        ∃ last, s.sequences.get? symbol = some last ∧ last + 1 < raw := by simp [Skipped]
    rw [hskipped]
    dsimp only [sequenceAdmits]
    cases hlast : s.sequences.get? symbol with
    | none => exact ⟨fun _ => ⟨fun counter => by cases counter <;> rfl, by simp, fun _ => rfl⟩,
        (fun h => nomatch h)⟩
    | some last =>
      by_cases hle : raw ≤ last
      · simp only [if_pos hle]
        refine ⟨(fun h => nomatch h), fun _ => ⟨⟨.duplicates, fun counter => ?_⟩, rfl⟩⟩
        cases counter <;> rfl
      · simp only [if_neg hle]
        refine ⟨fun _ => ⟨fun counter => by cases counter <;> rfl, ?_, ?_⟩, (fun h => nomatch h)⟩
        · rintro ⟨last', hlast', hskip⟩
          rw [Option.some.injEq] at hlast'
          subst hlast'
          rw [if_pos hskip]
        · intro hnot
          rw [if_neg fun hskip => hnot ⟨last, rfl, hskip⟩]

variable {s' : StreamSource} {record : Option StreamedRecord}

theorem admittedText_counts {symbol : String} {fields : List (String × JsonValue)}
    (h : s.admittedText py c now kind symbol fields = .ok (s', record)) :
    (record = none → ∃ counted, CountsOn counted s s') ∧
      (record.isSome = true → CountsSame s s') ∧ s'.stats.gaps = s.stats.gaps := by
  rw [admittedText] at h
  cases hnormal : py.normalize c.policy symbol fields kind with
  | error e =>
    rw [hnormal] at h
    cases e with
    | rejected =>
      obtain ⟨rfl, rfl⟩ := Prod.mk.inj (Except.ok.inj h)
      exact ⟨fun _ => ⟨.malformed, countsOn_malformed⟩, (fun hnot => nomatch hnot), rfl⟩
    | escaped e => cases h
  | ok canonical =>
    rw [hnormal] at h
    dsimp only at h
    split at h
    · cases h
    · obtain ⟨rfl, rfl⟩ := Prod.mk.inj (Except.ok.inj h)
      refine ⟨fun _ => ⟨.stale, fun counter => ?_⟩, (fun hnot => nomatch hnot), rfl⟩
      cases counter <;> rfl
    · obtain ⟨rfl, rfl⟩ := Prod.mk.inj (Except.ok.inj h)
      exact ⟨(fun hnot => nomatch hnot), fun _ counter => rfl, rfl⟩

theorem counted_of {counted : Counter} (hcounts : CountsOn counted s s')
    (hack : ¬ Acknowledges py text) (hskips : ¬ s.Skips py text)
    (hgaps : s'.stats.gaps = s.stats.gaps) : s.Counted py text s' none := by
  refine ⟨fun _ _ => ⟨counted, hcounts⟩, ?_, fun h => absurd h hskips, fun _ => hgaps⟩
  rintro (hrecord | hnot)
  · cases hrecord
  · exact absurd hnot hack

theorem not_acknowledges {fields : List (String × JsonValue)}
    (hloads : py.loads text = .value (.object fields))
    (hkind : kindOf (Dict.getList "type" fields) ≠ .subscribed) : ¬ Acknowledges py text := by
  rintro ⟨fields', hloads', hsubscribed⟩
  obtain rfl : fields = fields' := by simpa using hloads.symm.trans hloads'
  exact hkind hsubscribed

theorem not_skips {fields : List (String × JsonValue)}
    (hloads : py.loads text = .value (.object fields))
    (hnot : ∀ symbol, ¬ s.Admitted py text (kindOf (Dict.getList "type" fields)) symbol fields) :
    ¬ s.Skips py text := by
  rintro ⟨kind, symbol, fields', raw, last, hadmitted, -⟩
  obtain rfl : fields = fields' := by simpa using hloads.symm.trans hadmitted.loaded
  exact hnot symbol (by rw [hadmitted.typed]; exact hadmitted)

theorem not_skips_of_not_market {fields : List (String × JsonValue)}
    (hloads : py.loads text = .value (.object fields))
    (hkind : (kindOf (Dict.getList "type" fields)).isMarket = false) : ¬ s.Skips py text :=
  not_skips hloads fun symbol hadmitted => by
    have hmarket := hadmitted.market
    rw [hkind] at hmarket
    cases hmarket

/-- A message of market data is a record, or it is counted once. -/
theorem marketText_counted {fields : List (String × JsonValue)}
    (hloads : py.loads text = .value (.object fields))
    (hmarket : (kindOf (Dict.getList "type" fields)).isMarket = true)
    (h : s.marketText py c now (kindOf (Dict.getList "type" fields)) fields = .ok (s', record)) :
    s.Counted py text s' record := by
  have hack : ¬ Acknowledges py text := not_acknowledges hloads fun hsubscribed => by
    rw [hsubscribed] at hmarket
    cases hmarket
  rw [marketText] at h
  cases hsymbol : symbolOf (Dict.getList "symbol" fields) with
  | none =>
    rw [hsymbol] at h
    obtain ⟨rfl, rfl⟩ := Prod.mk.inj (Except.ok.inj h)
    refine counted_of countsOn_malformed hack (not_skips hloads fun symbol hadmitted => ?_) rfl
    have hnamed := hadmitted.named
    rw [hsymbol] at hnamed
    cases hnamed
  | some symbol =>
    rw [hsymbol] at h
    dsimp only at h
    obtain ⟨hadmits, hrefuses⟩ :=
      sequenceAdmits_counts s symbol (sequenceOf (Dict.getList "sequence" fields))
    -- only this symbol and this sequence can skip
    have hskips : ∀ hsequenced :
        (s.sequenceAdmits symbol (sequenceOf (Dict.getList "sequence" fields))).2 = true,
        s.Skips py text ↔ Skipped s symbol (sequenceOf (Dict.getList "sequence" fields)) := by
      intro hsequenced
      constructor
      · rintro ⟨kind, symbol', fields', raw, last, hadmitted, hraw, hlast, hskip⟩
        obtain rfl : fields = fields' := by simpa using hloads.symm.trans hadmitted.loaded
        obtain rfl : symbol = symbol' := by simpa using hsymbol.symm.trans hadmitted.named
        exact ⟨raw, last, hraw, hlast, hskip⟩
      · rintro ⟨raw, last, hraw, hlast, hskip⟩
        exact ⟨_, symbol, fields, raw, last, ⟨hloads, rfl, hmarket, hsymbol, hsequenced⟩, hraw,
          hlast, hskip⟩
    have hnamed : ∀ symbol', s.Admitted py text (kindOf (Dict.getList "type" fields)) symbol'
        fields → (s.sequenceAdmits symbol
          (sequenceOf (Dict.getList "sequence" fields))).2 = true := by
      intro symbol' hadmitted
      obtain rfl : symbol = symbol' := by simpa using hsymbol.symm.trans hadmitted.named
      exact hadmitted.sequenced
    generalize s.sequenceAdmits symbol (sequenceOf (Dict.getList "sequence" fields)) = out
      at h hadmits hrefuses hskips hnamed
    obtain ⟨s₁, admitted⟩ := out
    cases admitted with
    | false =>
      obtain ⟨rfl, rfl⟩ := Prod.mk.inj (Except.ok.inj h)
      obtain ⟨⟨counted, hcounts⟩, hgaps⟩ := hrefuses rfl
      exact counted_of hcounts hack
        (not_skips hloads fun symbol' hadmitted => nomatch hnamed symbol' hadmitted) hgaps
    | true =>
      obtain ⟨hsame, hgap, hnoGap⟩ := hadmits rfl
      obtain ⟨hdropped, hrecord, hgaps⟩ := admittedText_counts h
      dsimp only at hsame hgap hnoGap
      refine ⟨fun hnone _ => ?_, ?_, fun hskip => ?_, fun hskip => ?_⟩
      · obtain ⟨counted, hcounts⟩ := hdropped hnone
        refine ⟨counted, fun counter => ?_⟩
        rw [hcounts counter, hsame counter]
      · rintro (hsome | hnot)
        · intro counter
          rw [hrecord hsome counter, hsame counter]
        · exact absurd hnot hack
      · rw [hgaps, hgap ((hskips rfl).mp hskip)]
      · rw [hgaps, hnoGap fun hskipped => hskip ((hskips rfl).mpr hskipped)]

/-- **A message that raises nothing is a record, or it is counted once.** -/
theorem recordFromText_counted (h : s.recordFromText py c now text = .ok (s', record)) :
    s.Counted py text s' record := by
  rw [recordFromText] at h
  have hunread : (∀ fields, py.loads text ≠ .value (.object fields)) →
      s.Counted py text s.countMalformed none := by
    intro hnot
    refine counted_of countsOn_malformed ?_ ?_ rfl
    · rintro ⟨fields, hloads, -⟩
      exact hnot fields hloads
    · rintro ⟨kind, symbol, fields, raw, last, hadmitted, -⟩
      exact hnot fields hadmitted.loaded
  split at h
  · cases h
  · next hloads =>
    obtain ⟨rfl, rfl⟩ := Prod.mk.inj (Except.ok.inj h)
    exact hunread fun fields => by rw [hloads]; simp
  · next fields hloads =>
    dsimp only at h
    have hplain : ∀ {s₁ : StreamSource} {counted : Counter},
        (kindOf (Dict.getList "type" fields)).isMarket = false →
        kindOf (Dict.getList "type" fields) ≠ .subscribed → CountsOn counted s s₁ →
        s₁.stats.gaps = s.stats.gaps → s.Counted py text s₁ none :=
      fun hkind hack hcounts hgaps => counted_of hcounts (not_acknowledges hloads hack)
        (not_skips_of_not_market hloads hkind) hgaps
    have hmarketed : (kindOf (Dict.getList "type" fields)).isMarket = true →
        s.marketText py c now (kindOf (Dict.getList "type" fields)) fields = .ok (s', record) →
        s.Counted py text s' record := marketText_counted hloads
    cases hkind : kindOf (Dict.getList "type" fields) <;> rw [hkind] at h hplain hmarketed
    case quote => exact hmarketed rfl h
    case trade => exact hmarketed rfl h
    case bar => exact hmarketed rfl h
    case heartbeat =>
      obtain ⟨rfl, rfl⟩ := Prod.mk.inj (Except.ok.inj h)
      have hcounts : CountsOn .heartbeats s
          (s.counting fun n => { n with heartbeats := n.heartbeats + 1 }) :=
        fun counter => by cases counter <;> rfl
      exact hplain rfl (by simp) hcounts rfl
    case error =>
      obtain ⟨rfl, rfl⟩ := Prod.mk.inj (Except.ok.inj h)
      have hcounts : CountsOn .errors s (s.counting fun n => { n with errors := n.errors + 1 }) :=
        fun counter => by cases counter <;> rfl
      exact hplain rfl (by simp) hcounts rfl
    case other =>
      obtain ⟨rfl, rfl⟩ := Prod.mk.inj (Except.ok.inj h)
      exact hplain rfl (by simp) countsOn_malformed rfl
    case unhashable => cases h
    case subscribed =>
      obtain ⟨rfl, rfl⟩ := Prod.mk.inj (Except.ok.inj h)
      refine ⟨fun _ hnot => absurd ⟨fields, hloads, hkind⟩ hnot, fun _ counter => rfl, fun hskip => ?_,
        fun _ => rfl⟩
      exact absurd hskip (not_skips_of_not_market hloads (by rw [hkind]; rfl))
  · next value hvalue hloads =>
    obtain ⟨rfl, rfl⟩ := Prod.mk.inj (Except.ok.inj h)
    refine hunread fun fields hobject => ?_
    rw [hloads] at hobject
    exact hvalue fields (Loaded.value.inj hobject)

/-! ## What raises nothing -/

/-- An admitted message raises nothing just when its normalization lets nothing out and its
    age, if it is judged, is judged by a limit that is one. -/
theorem admittedText_ok_iff {symbol : String} {fields : List (String × JsonValue)} :
    (∃ out, s.admittedText py c now kind symbol fields = .ok out) ↔
      py.Normalizable c.policy symbol fields kind ∧
        ∀ input, py.normalize c.policy symbol fields kind = .ok input →
          ∀ limit, c.maxRecordAge = some limit → 0 ≤ limit := by
  rw [← Python.contained_normalize, admittedText]
  cases hnormal : py.normalize c.policy symbol fields kind with
  | error e =>
    cases e with
    | rejected => simp [contained_rejected]
    | escaped e =>
      constructor
      · rintro ⟨out, hout⟩
        cases hout
      · rintro ⟨hcontained, -⟩
        exact absurd rfl (hcontained e)
  | ok canonical =>
    have hage : (∀ limit, c.maxRecordAge = some limit → 0 ≤ limit) ↔
        c.maxRecordAge.elim (some false) (staleAt canonical.timestamp now) ≠ none := by
      cases c.maxRecordAge with
      | none => simp
      | some limit =>
        have hstale : staleAt canonical.timestamp now limit = none ↔ limit < 0 := by
          cases canonical.timestamp <;> simp [staleAt, isStale]
        simp [hstale]
    constructor
    · rintro ⟨out, hout⟩
      refine ⟨contained_ok canonical, fun input _ => hage.mpr fun hnone => ?_⟩
      simp only [hnone] at hout
      cases hout
    · rintro ⟨-, h⟩
      have hjudged := hage.mp (h canonical rfl)
      cases hstale : c.maxRecordAge.elim (some false) (staleAt canonical.timestamp now) with
      | none => exact absurd hstale hjudged
      | some stale =>
        dsimp only
        rw [hstale]
        cases stale <;> exact ⟨_, rfl⟩

theorem harmless_of_no_object (hnot : ∀ fields, py.loads text ≠ .value (.object fields)) :
    s.Harmless py c text ↔ py.loads text ≠ .failed := by
  constructor
  · intro h
    exact h.loads
  · intro hloads
    refine ⟨hloads, fun fields hobject => absurd hobject (hnot fields), ?_, ?_⟩
    · intro kind symbol fields hadmitted
      exact absurd hadmitted.loaded (hnot fields)
    · intro kind symbol fields input hadmitted
      exact absurd hadmitted.loaded (hnot fields)

/-- Of a message of market data its normalization is asked, if it is admitted. -/
theorem harmless_iff (now : Instant) {fields : List (String × JsonValue)}
    (hloads : py.loads text = .value (.object fields)) :
    s.Harmless py c text ↔ kindOf (Dict.getList "type" fields) ≠ .unhashable ∧
      ∀ symbol, s.Admitted py text (kindOf (Dict.getList "type" fields)) symbol fields →
        ∃ out, (s.sequenceAdmits symbol
          (sequenceOf (Dict.getList "sequence" fields))).1.admittedText py c now
            (kindOf (Dict.getList "type" fields)) symbol fields = .ok out := by
  simp only [admittedText_ok_iff]
  constructor
  · intro h
    exact ⟨h.kind fields hloads, fun symbol hadmitted =>
      ⟨h.normalizable _ symbol fields hadmitted, fun input => h.age _ symbol fields input hadmitted⟩⟩
  · rintro ⟨hkind, hnormal⟩
    refine ⟨by simp [hloads], ?_, ?_, ?_⟩
    · intro fields' hloads'
      obtain rfl : fields = fields' := by simpa using hloads.symm.trans hloads'
      exact hkind
    · intro kind symbol fields' hadmitted
      obtain rfl : fields = fields' := by simpa using hloads.symm.trans hadmitted.loaded
      obtain rfl := hadmitted.typed
      exact (hnormal symbol hadmitted).1
    · intro kind symbol fields' input hadmitted
      obtain rfl : fields = fields' := by simpa using hloads.symm.trans hadmitted.loaded
      obtain rfl := hadmitted.typed
      exact (hnormal symbol hadmitted).2 input

/-- A message of market data raises nothing unless it is admitted and its handling does. -/
theorem marketText_ok_iff {fields : List (String × JsonValue)}
    (hloads : py.loads text = .value (.object fields))
    (hmarket : (kindOf (Dict.getList "type" fields)).isMarket = true) :
    (∃ out, s.marketText py c now (kindOf (Dict.getList "type" fields)) fields = .ok out) ↔
      ∀ symbol, s.Admitted py text (kindOf (Dict.getList "type" fields)) symbol fields →
        ∃ out, (s.sequenceAdmits symbol
          (sequenceOf (Dict.getList "sequence" fields))).1.admittedText py c now
            (kindOf (Dict.getList "type" fields)) symbol fields = .ok out := by
  rw [marketText]
  cases hsymbol : symbolOf (Dict.getList "symbol" fields) with
  | none =>
    refine ⟨fun _ symbol hadmitted => ?_, fun _ => ⟨_, rfl⟩⟩
    have hnamed := hadmitted.named
    rw [hsymbol] at hnamed
    cases hnamed
  | some symbol =>
    dsimp only
    cases hout : s.sequenceAdmits symbol (sequenceOf (Dict.getList "sequence" fields)) with
    | mk s₁ sequenced =>
      cases sequenced with
      | false =>
        refine ⟨fun _ symbol' hadmitted => ?_, fun _ => ⟨_, rfl⟩⟩
        obtain rfl : symbol = symbol' := by simpa using hsymbol.symm.trans hadmitted.named
        have hsequenced := hadmitted.sequenced
        rw [hout] at hsequenced
        cases hsequenced
      | true =>
        dsimp only
        constructor
        · intro h symbol' hadmitted
          obtain rfl : symbol = symbol' := by simpa using hsymbol.symm.trans hadmitted.named
          rw [hout]
          exact h
        · intro h
          have hadmitted := h symbol ⟨hloads, rfl, hmarket, hsymbol, by rw [hout]⟩
          rwa [hout] at hadmitted

/-- **Exactly a harmless message raises nothing.** -/
theorem recordFromText_ok_iff (now : Instant) :
    (∃ out, s.recordFromText py c now text = .ok out) ↔ s.Harmless py c text := by
  rw [recordFromText]
  split
  · next hloads =>
    rw [harmless_of_no_object (by simp [hloads])]
    simp [hloads]
  · next hloads =>
    rw [harmless_of_no_object (by simp [hloads])]
    simp [hloads]
  · next fields hloads =>
    have hplain : (kindOf (Dict.getList "type" fields)).isMarket = false →
        (s.Harmless py c text ↔ kindOf (Dict.getList "type" fields) ≠ .unhashable) := by
      intro hkind
      rw [harmless_iff now hloads]
      refine ⟨fun h => h.1, fun h => ⟨h, fun symbol hadmitted => ?_⟩⟩
      have hmarket := hadmitted.market
      rw [hkind] at hmarket
      cases hmarket
    have hmarketed : (kindOf (Dict.getList "type" fields)).isMarket = true →
        kindOf (Dict.getList "type" fields) ≠ .unhashable →
        ((∃ out, s.marketText py c now (kindOf (Dict.getList "type" fields)) fields = .ok out) ↔
          s.Harmless py c text) := by
      intro hkind hhashable
      rw [harmless_iff now hloads, marketText_ok_iff hloads hkind]
      simp [hhashable]
    dsimp only
    cases hkind : kindOf (Dict.getList "type" fields) <;> rw [hkind] at hplain hmarketed
    case quote => exact hmarketed rfl (by simp)
    case trade => exact hmarketed rfl (by simp)
    case bar => exact hmarketed rfl (by simp)
    all_goals
      rw [hplain rfl]
      simp
  · next value hvalue hloads =>
    rw [harmless_of_no_object (fun fields hobject => hvalue fields
      (Loaded.value.inj (hloads.symm.trans hobject)))]
    simp [hloads]

/-- **No message ends the session, and every one is counted, exactly when it is harmless.** -/
theorem counts_every_message_iff (py : Python) (c : SourceConfig) (s : StreamSource)
    (now : Instant) (text : String) :
    (∃ s' record, s.recordFromText py c now text = .ok (s', record) ∧
      s.Counted py text s' record) ↔ s.Harmless py c text := by
  rw [← recordFromText_ok_iff now]
  constructor
  · rintro ⟨s', record, h, -⟩
    exact ⟨(s', record), h⟩
  · rintro ⟨⟨s', record⟩, h⟩
    exact ⟨s', record, h, recordFromText_counted h⟩

def readingOnly (text : String) (value : JsonValue) : Python where
  loads t := if t = text then .value value else .notJson
  parse _ := none
  nearest n := n
  plus x _ := x

/-- `{"type":[]}` -/
def listType : String := "\x7b\"type\":[]\x7d"

/-- **A message whose `type` is a list raises**: it is looked for in a set. -/
theorem list_type_raises :
    let py := readingOnly listType (.object [("type", .array [])])
    let c : SourceConfig := ⟨"venue", ⟨"UNKNOWN", some "USD", none, none, fun _ _ => none⟩, none⟩
    initial.recordFromText py c 0 listType = .error .unhashable ∧
      ¬ ∃ s' record, initial.recordFromText py c 0 listType = .ok (s', record) ∧
        initial.Counted py listType s' record := by
  refine ⟨rfl, ?_⟩
  rintro ⟨s', record, h, -⟩
  cases h

/-! ## The messages of the reading loop -/

def wireMessage (py : Python) (text : String) : WireMessage (List (String × JsonValue)) :=
  match py.loads text with
  | .value (.object fields) => .object ⟨kindOf (Dict.getList "type" fields),
      symbolOf (Dict.getList "symbol" fields), sequenceOf (Dict.getList "sequence" fields), fields⟩
  | _ => .unreadable

def canonicalInput (input : MarketInput) : Option (CanonicalInput MarketInput) :=
  match input.timestamp with
  | .finite t => some ⟨t, input⟩
  | _ => none

def streamConfig (py : Python) (c : SourceConfig) (maxReconnects : Option ℤ) :
    StreamConfig (List (String × JsonValue)) MarketInput where
  sourceId := c.sourceId
  normalize kind symbol fields :=
    (py.normalize c.policy symbol fields kind).toOption.bind canonicalInput
  maxReconnects := maxReconnects
  maxRecordAge := c.maxRecordAge

def Agrees (out : StreamSource × Option StreamedRecord)
    (handled : StreamSource × Handled MarketInput) : Prop :=
  handled.1 = out.1 ∧ (out.2 = none → handled.2 = .dropped) ∧
    ∀ r, out.2 = some r → ∃ t, r.timestamp = .finite t ∧
      handled.2 = .record ⟨r.eventId, t, ⟨t, r.payload⟩⟩

theorem admitted_agrees {symbol : String} {fields : List (String × JsonValue)}
    {out : StreamSource × Option StreamedRecord} (maxReconnects : Option ℤ)
    (hfinite : ∀ r ∈ out.2, r.timestamp.isFinite = true)
    (h : s.admittedText py c now kind symbol fields = .ok out) :
    Agrees out (s.admitted (streamConfig py c maxReconnects) now kind symbol fields) := by
  rw [admittedText] at h
  rw [admitted]
  dsimp only [streamConfig]
  cases hnormal : py.normalize c.policy symbol fields kind with
  | error e =>
    rw [hnormal] at h
    cases e with
    | escaped e => cases h
    | rejected =>
      obtain rfl := Except.ok.inj h
      exact ⟨rfl, fun _ => rfl, fun r hr => nomatch hr⟩
  | ok canonical =>
    rw [hnormal] at h
    dsimp only [Except.toOption, Option.bind] at h ⊢
    -- a record at no finite time would have been given
    have hnever : canonical.timestamp.isFinite = false → False := by
      intro hnot
      have hstale : ∀ limit, staleAt canonical.timestamp now limit ≠ some true := by
        intro limit
        cases htimestamp : canonical.timestamp with
        | finite t =>
          rw [htimestamp] at hnot
          cases hnot
        | infinite negative =>
          change (if limit < 0 then none else some false) ≠ some true
          split_ifs <;> simp
        | nan =>
          change (if limit < 0 then none else some false) ≠ some true
          split_ifs <;> simp
      cases hage : c.maxRecordAge.elim (some false) (staleAt canonical.timestamp now) with
      | none =>
        rw [hage] at h
        cases h
      | some stale =>
        rw [hage] at h
        cases stale with
        | true =>
          cases hlimit : c.maxRecordAge with
          | none => simp [hlimit] at hage
          | some limit =>
            rw [hlimit] at hage
            exact hstale limit hage
        | false =>
          obtain rfl := Except.ok.inj h
          have hrecord := hfinite _ rfl
          dsimp only at hrecord
          rw [hnot] at hrecord
          cases hrecord
    cases htimestamp : canonical.timestamp with
    | finite t =>
      have hinput : canonicalInput canonical = some ⟨t, canonical⟩ := by
        rw [canonicalInput, htimestamp]
      have hstale : staleAt canonical.timestamp now = isStale t now := by
        rw [htimestamp]
        rfl
      rw [hstale] at h
      rw [hinput]
      dsimp only
      cases hage : c.maxRecordAge.elim (some false) (isStale t now) with
      | none =>
        rw [hage] at h
        cases h
      | some stale =>
        rw [hage] at h
        cases stale with
        | true =>
          obtain rfl := Except.ok.inj h
          exact ⟨rfl, fun _ => rfl, fun r hr => nomatch hr⟩
        | false =>
          obtain rfl := Except.ok.inj h
          refine ⟨rfl, (fun hnone => nomatch hnone), fun r hr => ⟨t, ?_, ?_⟩⟩
          · rw [← Option.some.inj hr]
            exact htimestamp
          · rw [← Option.some.inj hr]
    | infinite negative =>
      exact absurd (hnever (by rw [htimestamp]; rfl)) id
    | nan =>
      exact absurd (hnever (by rw [htimestamp]; rfl)) id

/-- **The reading loop handles a message as its text is handled**, if that raises nothing and
    gives no record at an infinite time. -/
theorem recordFrom_agrees {out : StreamSource × Option StreamedRecord} (maxReconnects : Option ℤ)
    (hfinite : ∀ r ∈ out.2, r.timestamp.isFinite = true)
    (h : s.recordFromText py c now text = .ok out) :
    Agrees out (s.recordFrom (streamConfig py c maxReconnects) now (wireMessage py text)) := by
  have hsame : ∀ source : StreamSource, Agrees (source, none) (source, .dropped) :=
    fun source => ⟨rfl, fun _ => rfl, fun r hr => nomatch hr⟩
  rw [recordFromText] at h
  rw [wireMessage]
  split at h
  · cases h
  · next hloads =>
    obtain rfl := Except.ok.inj h
    rw [hloads]
    exact hsame _
  · next fields hloads =>
    rw [hloads]
    dsimp only at h ⊢
    have hmarketed : (kindOf (Dict.getList "type" fields)).isMarket = true →
        s.marketText py c now (kindOf (Dict.getList "type" fields)) fields = .ok out →
        Agrees out (s.recordFrom (streamConfig py c maxReconnects) now
          (.object ⟨kindOf (Dict.getList "type" fields), symbolOf (Dict.getList "symbol" fields),
            sequenceOf (Dict.getList "sequence" fields), fields⟩)) := by
      intro hmarket hmarketText
      rw [marketText] at hmarketText
      cases hsymbol : symbolOf (Dict.getList "symbol" fields) with
      | none =>
        rw [hsymbol] at hmarketText
        obtain rfl := Except.ok.inj hmarketText
        cases hkind : kindOf (Dict.getList "type" fields) <;> rw [hkind] at hmarket <;>
          first | cases hmarket; done | exact hsame _
      | some symbol =>
        have hempty : symbol ≠ "" := by
          intro hnot
          cases hvalue : Dict.getList "symbol" fields with
          | none => simp [hvalue, symbolOf] at hsymbol
          | some value =>
            rw [hvalue] at hsymbol
            cases value <;> simp [symbolOf] at hsymbol
            exact hsymbol.1 (hsymbol.2.trans hnot)
        rw [recordFrom_market hmarket rfl hempty]
        rw [hsymbol] at hmarketText
        dsimp only at hmarketText ⊢
        generalize s.sequenceAdmits symbol (sequenceOf (Dict.getList "sequence" fields)) =
          admission at hmarketText ⊢
        obtain ⟨s₁, sequenced⟩ := admission
        cases sequenced with
        | false =>
          obtain rfl := Except.ok.inj hmarketText
          exact hsame _
        | true => exact admitted_agrees maxReconnects hfinite hmarketText
    cases hkind : kindOf (Dict.getList "type" fields) <;> rw [hkind] at h hmarketed
    case quote => exact hmarketed rfl h
    case trade => exact hmarketed rfl h
    case bar => exact hmarketed rfl h
    case unhashable => cases h
    all_goals
      obtain rfl := Except.ok.inj h
      exact hsame _
  · next value hvalue hloads =>
    obtain rfl := Except.ok.inj h
    rw [hloads]
    cases value with
    | object fields => exact absurd rfl (hvalue fields)
    | null => exact hsame _
    | bool b => exact hsame _
    | int n => exact hsame _
    | float x => exact hsame _
    | str t => exact hsame _
    | array items => exact hsame _

/-- `{"type":"trade","symbol":"A","timestamp":1,"price":2,"size":3}` -/
def tradeText : String :=
  "\x7b\"type\":\"trade\",\"symbol\":\"A\",\"timestamp\":1,\"price\":2,\"size\":3\x7d"

def tradeReader : Python := readingOnly tradeText (.object [("type", .str "trade"),
  ("symbol", .str "A"), ("timestamp", .int 1), ("price", .int 2), ("size", .int 3)])

def tradeSource : SourceConfig :=
  ⟨"venue", ⟨"VENUE", some "USD", none, none, fun _ _ => some "ABC"⟩, none⟩

theorem trade_agrees : ∃ out,
    initial.recordFromText tradeReader tradeSource 0 tradeText = .ok out ∧ out.2.isSome = true ∧
    Agrees out (initial.recordFrom (streamConfig tradeReader tradeSource none) 0
      (wireMessage tradeReader tradeText)) := by
  obtain ⟨out, hout, hfinite⟩ := exists_ok_of
    (x := initial.recordFromText tradeReader tradeSource 0 tradeText)
    (fun out => out.2.any (·.timestamp.isFinite) = true) (by decide +kernel)
  obtain ⟨r, hr, hfinite⟩ := (Option.any_eq_true _ _).mp hfinite
  refine ⟨out, hout, by simp [hr], recordFrom_agrees none (fun s hs => ?_) hout⟩
  rwa [← Option.some.inj (hr.symm.trans hs)]

end StreamSource

end AlphaLab
