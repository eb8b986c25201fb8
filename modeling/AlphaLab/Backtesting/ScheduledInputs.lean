/-
  What a schedule is made of (`RunSchedule.of`, `_daily_entries` and `_require_payments` of
  `backtesting/schedule.py`).

  * `Supply` is an argument that is read: what it holds, and whether it can be read again;
  * `ScheduleArguments` are the inputs of each kind, `RunSchedule.of` places and orders them;
  * `holds_every_input_iff`: a schedule holds every input, once, iff the inputs that are read
    twice can be, or hold no period accrued daily, and no action has anything recorded.
-/
import AlphaLab.Backtesting.Schedule
import AlphaLab.Lib.Clock
import AlphaLab.Lib.SortBy

namespace AlphaLab

open Clock Fallible

/-! ## The inputs -/

/-- `ObservationDelivery`, as far as a schedule places it. -/
structure DeliveredObservation where
  knownAt : Instant
  deliveryId : String

structure Funding where
  at_ : Instant
  currency : String
  amount : Decimal

/-- `ScheduledCashFlow`, as far as a schedule places it. -/
structure ScheduledCashFlow where
  at_ : Instant
  assetId : String
  kind : String
  reference : String
  amount : Decimal

/-- `ScheduledDistribution`, as far as a schedule places it. -/
structure ScheduledDistribution where
  at_ : Instant
  assetId : String
  kind : String

/-- An input about an instrument at an instant: `ScheduledFundingRate`, `ScheduledSplit`,
    `ScheduledSettlement` or `ScheduledExpiry`, as far as a schedule places it. -/
structure ScheduledEvent where
  at_ : Instant
  assetId : String

structure TimerEvent where
  timestamp : Instant
  timerId : String

/-- `ScheduledExercise` or `ScheduledAssignment`, as far as a schedule places it. -/
structure ScheduledInstruction where
  at_ : Instant
  assetId : String
  reference : String

/-- `DailyAccrual`: the time of the wall clock a day accrues at. -/
structure DailyAccrual where
  clock : WallClock
  cutoff : ℤ

/-- `instant`: the instant a day's cutoff falls at. -/
def DailyAccrual.instant (accrual : DailyAccrual) (day : ℤ) : Instant :=
  (accrual.clock.instantOf (day * dayLength + accrual.cutoff) : ℚ) / 1000000

/-- `ScheduledInterest` of a currency, or `ScheduledBorrowFee`: a period of days, and the instant
    it is booked at. -/
structure ScheduledPeriod where
  currency : Option String
  start : ℤ
  «end» : ℤ
  at_ : Instant
  reference : String

def ScheduledPeriod.identity (p : ScheduledPeriod) : String :=
  (p.currency.elim "" fun currency => currency ++ ":") ++ p.reference

/-- `DailyInterest` or `DailyBorrowFee`: a period accrued day by day. -/
structure DailyPeriod where
  period : ScheduledPeriod
  accrual : DailyAccrual
  cutoffs : accrual.instant (period.end - 1) ≤ period.at_

/-- An element of `interest` or of `borrow_fees`. -/
inductive PeriodInput where
  | plain (period : ScheduledPeriod)
  | daily (period : DailyPeriod)

/-- An exchange, as far as a schedule places it; of an elective one, its reference, its record
    instant and the announcements of its corrections. -/
structure DeclaredExchange where
  assetId : String
  at_ : Instant
  deliveries : List String
  elective : Option (String × Option Instant × List Instant)

/-- `PaymentAmendment`, or `DeliveryAmendment` of a leg. -/
structure ScheduledAmendment where
  holding : String
  effectiveAt : Instant
  subject : String
  ofDelivery : Bool
  at_ : Instant
  change : PaymentChange

/-- `ObservedSurface` or `DeliveredAuction`, as far as a schedule places it. -/
structure DeliveredVersion where
  knownAt : Instant
  source : String
  version : String
  assetId : String

inductive ScheduledItem where
  | observation (d : DeliveredObservation)
  | funding (f : Funding)
  | cashFlow (c : ScheduledCashFlow)
  | distribution (d : ScheduledDistribution)
  | event (e : ScheduledEvent)
  | timer (t : TimerEvent)
  | instruction (i : ScheduledInstruction)
  | period (p : PeriodInput)
  | accrualDay (of_ : DailyPeriod) (day : ℤ)
  | exchange (x : DeclaredExchange)
  | delivered (v : DeliveredVersion)
  | amendment (a : ScheduledAmendment)
  | recordInstant (x : DeclaredExchange)
  | announcement (x : DeclaredExchange) (version : ℕ)

/-- How amounts, instants and dates are written in an identity. -/
structure InputTexts where
  amount : Decimal → String
  instant : Instant → String
  isoDate : ℤ → String

/-- An argument that is read: what it holds, and whether it can be read again once read. -/
structure Supply (α : Type) where
  items : List α
  again : Bool

def Supply.read {α : Type} (s : Supply α) : List α × Supply α :=
  (s.items, if s.again then s else { s with items := [] })

/-- The arguments of `RunSchedule.of`. -/
structure ScheduleArguments where
  observations : Supply DeliveredObservation
  rates : Supply FxRate
  fundings : Supply Funding
  cashFlows : Supply ScheduledCashFlow
  distributions : Supply ScheduledDistribution
  fundingRates : Supply ScheduledEvent
  splits : Supply ScheduledEvent
  timers : Supply TimerEvent
  settlements : Supply ScheduledEvent
  rateMaxAgeSeconds : Option Instant
  exercises : Supply ScheduledInstruction
  assignments : Supply ScheduledInstruction
  expiries : Supply ScheduledEvent
  interest : Supply PeriodInput
  borrowFees : Supply PeriodInput
  exchanges : Supply DeclaredExchange
  payments : Supply ScheduledAmendment
  surfaces : Supply DeliveredVersion
  auctions : Supply DeliveredVersion

/-! ## Their entries -/

abbrev InputEntry := ScheduleEntry ScheduledItem

/-- `_entry`, of another kind than a rate. -/
def inputEntry (kind : ScheduleKind) (at_ : Instant) (identity : String) (item : ScheduledItem)
    (hkind : kind ≠ .rate := by decide) : InputEntry :=
  ⟨at_, kind, identity, .inr item, by simp [hkind]⟩

def FxRate.entry (r : FxRate) : InputEntry :=
  ⟨r.asOf, .rate, r.base ++ "/" ++ r.quote, .inl r, by simp⟩

def DeliveredObservation.entry (d : DeliveredObservation) : InputEntry :=
  inputEntry .observation d.knownAt d.deliveryId (.observation d)

def Funding.entry (texts : InputTexts) (f : Funding) : InputEntry :=
  inputEntry .funding f.at_ (f.currency ++ ":" ++ texts.amount f.amount) (.funding f)

def ScheduledCashFlow.entry (texts : InputTexts) (c : ScheduledCashFlow) : InputEntry :=
  inputEntry .cashFlow c.at_
    (c.assetId ++ ":" ++ c.kind ++ ":" ++ c.reference ++ ":" ++ texts.amount c.amount) (.cashFlow c)

def ScheduledDistribution.entry (d : ScheduledDistribution) : InputEntry :=
  inputEntry .distribution d.at_ (d.assetId ++ ":" ++ d.kind) (.distribution d)

def ScheduledEvent.entry (kind : ScheduleKind) (e : ScheduledEvent)
    (hkind : kind ≠ .rate := by decide) : InputEntry :=
  inputEntry kind e.at_ e.assetId (.event e) hkind

def TimerEvent.entry (t : TimerEvent) : InputEntry :=
  inputEntry .timer t.timestamp t.timerId (.timer t)

/-- The identity of an exercise or an assignment is `_instruction`. -/
def ScheduledInstruction.entry (kind : ScheduleKind) (i : ScheduledInstruction)
    (hkind : kind ≠ .rate := by decide) : InputEntry :=
  inputEntry kind i.at_ (i.assetId ++ ":" ++ i.reference) (.instruction i) hkind

def DeclaredExchange.entry (x : DeclaredExchange) : InputEntry :=
  inputEntry .exchange x.at_ x.assetId (.exchange x)

def DeliveredVersion.entry (kind : ScheduleKind) (v : DeliveredVersion)
    (hkind : kind ≠ .rate := by decide) : InputEntry :=
  inputEntry kind v.knownAt (v.source ++ "|" ++ v.version ++ "|" ++ v.assetId) (.delivered v) hkind

/-- `key` of an amendment: the payment or the delivery it names. -/
def ScheduledAmendment.key (texts : InputTexts) (a : ScheduledAmendment) : String :=
  (if a.ofDelivery then "delivery:" else "") ++
    (a.holding ++ "|" ++ texts.instant a.effectiveAt ++ "|" ++ a.subject)

def ScheduledAmendment.entry (texts : InputTexts) (a : ScheduledAmendment) : InputEntry :=
  inputEntry .payment a.at_ (a.key texts) (.amendment a)

def DeclaredExchange.recordEntry (x : DeclaredExchange) : List InputEntry :=
  match x.elective with
  | some (reference, some at_, _) => [inputEntry .record at_ reference (.recordInstant x)]
  | _ => []

def DeclaredExchange.announcements (x : DeclaredExchange) : List InputEntry :=
  match x.elective with
  | some (reference, _, corrections) => corrections.zipIdx.map fun (at_, index) =>
    inputEntry .record at_ (reference ++ "#" ++ toString (index + 1)) (.announcement x (index + 1))
  | none => []

/-- `_days` -/
def daysOf (start «end» : ℤ) : List ℤ :=
  (List.range («end» - start).toNat).map fun n : ℕ => start + (n : ℤ)

namespace PeriodInput

def plainEntry (kind : ScheduleKind) (hkind : kind ≠ .rate := by decide) :
    PeriodInput → List InputEntry
  | plain p => [inputEntry kind p.at_ p.identity (.period (plain p)) hkind]
  | daily _ => []

def posting (kind : ScheduleKind) (hkind : kind ≠ .rate := by decide) (d : DailyPeriod) :
    InputEntry :=
  inputEntry kind d.period.at_ d.period.identity (.period (daily d)) hkind

def accruals (texts : InputTexts) (d : DailyPeriod) : List InputEntry :=
  (daysOf d.period.start d.period.end).map fun day =>
    inputEntry .accrual (d.accrual.instant day) (d.period.identity ++ ":" ++ texts.isoDate day)
      (.accrualDay d day)

/-- What `_daily_entries` makes of an element. -/
def dailyEntry (texts : InputTexts) (kind : ScheduleKind) (hkind : kind ≠ .rate := by decide) :
    PeriodInput → List InputEntry
  | plain _ => []
  | daily d => posting kind hkind d :: accruals texts d

end PeriodInput

def dailyEntries (texts : InputTexts) (interest borrowFees : List PeriodInput) : List InputEntry :=
  interest.flatMap (PeriodInput.dailyEntry texts .interest) ++
    borrowFees.flatMap (PeriodInput.dailyEntry texts .borrowFee)

namespace ScheduleArguments

variable (texts : InputTexts) (a : ScheduleArguments)

/-- The entry of each input at its instant, the periods accrued daily apart. -/
def inputEntries : List InputEntry :=
  a.observations.items.map (·.entry) ++ a.rates.items.map (·.entry) ++
    a.fundings.items.map (·.entry texts) ++ a.cashFlows.items.map (·.entry texts) ++
    a.distributions.items.map (·.entry) ++ a.fundingRates.items.map (·.entry .fundingRate) ++
    a.splits.items.map (·.entry .split) ++ a.timers.items.map (·.entry) ++
    a.settlements.items.map (·.entry .settlement) ++ a.exercises.items.map (·.entry .exercise) ++
    a.assignments.items.map (·.entry .assignment) ++ a.expiries.items.map (·.entry .expiry) ++
    a.interest.items.flatMap (PeriodInput.plainEntry .interest) ++
    a.borrowFees.items.flatMap (PeriodInput.plainEntry .borrowFee) ++
    a.exchanges.items.map (·.entry) ++ a.surfaces.items.map (·.entry .surface) ++
    a.auctions.items.map (·.entry .auction) ++ a.payments.items.map (·.entry texts)

def recordEntries : List InputEntry :=
  a.exchanges.items.flatMap (·.recordEntry) ++ a.exchanges.items.flatMap (·.announcements)

end ScheduleArguments

inductive ScheduleRefusal where
  | undeclaredDelivery | undeclaredPayment | amendedAfterEnd | suppliedTwice

/-- `_require_payments`: each amendment names an exchange that is declared, none follows the
    end of the same payment. -/
def requirePayments (texts : InputTexts) (payments : List ScheduledAmendment)
    (exchanges : List DeclaredExchange) : Except ScheduleRefusal Unit := do
  payments.forM fun p => do
    require (p.ofDelivery = true → ∃ x ∈ exchanges, x.assetId = p.holding ∧ x.at_ = p.effectiveAt ∧
      p.subject ∈ x.deliveries) .undeclaredDelivery
    require (∃ x ∈ exchanges, x.assetId = p.holding ∧ x.at_ = p.effectiveAt) .undeclaredPayment
  (payments.map (·.key texts)).dedup.forM fun key => do
    let ordered := sortBy (·.at_) (payments.filter fun p => p.key texts = key)
    require (∀ p ∈ ordered.dropLast, p.change ≠ .failed ∧ p.change ≠ .reversed) .amendedAfterEnd

theorem strict_of_sorted {l : List InputEntry} (hsorted : l.Pairwise fun a b => a.key ≤ b.key)
    (h : l.IsChain fun a b => a.key ≠ b.key) : l.Pairwise fun a b => a.key < b.key := by
  induction l with
  | nil => exact .nil
  | cons a l ih =>
    have hrest := ih hsorted.of_cons h.tail
    refine List.pairwise_cons.mpr ⟨?_, hrest⟩
    cases l with
    | nil => exact fun b hb => nomatch hb
    | cons b l =>
      have hfirst : a.key < b.key :=
        lt_of_le_of_ne ((List.pairwise_cons.mp hsorted).1 b (by simp))
          (List.isChain_cons_cons.mp h).1
      intro c hc
      rcases List.mem_cons.mp hc with rfl | hc
      · exact hfirst
      · exact hfirst.trans ((List.pairwise_cons.mp hrest).1 c hc)

def RunSchedule.ordering (entries : List InputEntry) (rateMaxAgeSeconds : Option Instant) :
    Except ScheduleRefusal (RunSchedule ScheduledItem) :=
  if h : (sortBy ScheduleEntry.key entries).IsChain fun a b => a.key ≠ b.key then
    .ok ⟨sortBy ScheduleEntry.key entries, rateMaxAgeSeconds,
      strict_of_sorted (sortBy_sorted _ _) h⟩
  else .error .suppliedTwice

/-- `RunSchedule.of`; `interest` and `borrow_fees` are read twice. -/
def RunSchedule.of (texts : InputTexts) (a : ScheduleArguments) :
    Except ScheduleRefusal (RunSchedule ScheduledItem) := do
  requirePayments texts a.payments.items a.exchanges.items
  let (_, interest) := a.interest.read
  let (_, borrowFees) := a.borrowFees.read
  RunSchedule.ordering (a.inputEntries texts ++
    dailyEntries texts interest.items borrowFees.items ++ a.recordEntries) a.rateMaxAgeSeconds

/-! ## What a schedule holds -/

/-- What is left of an argument has each period accrued daily, or there is none. -/
def Supply.RereadsDaily (s : Supply PeriodInput) : Prop :=
  s.again = true ∨ ∀ p ∈ s.items, ∃ period, p = .plain period

/-- The arguments that are read twice can be, or hold no period accrued daily. -/
def ScheduleArguments.RereadsDaily (a : ScheduleArguments) : Prop :=
  a.interest.RereadsDaily ∧ a.borrowFees.RereadsDaily

/-- Each day of a period accrued daily comes before its posting. -/
def PeriodInput.AccruesFirst (texts : InputTexts) (kind : ScheduleKind) (hkind : kind ≠ .rate)
    (items : List PeriodInput) : Prop :=
  ∀ d, .daily d ∈ items → ∀ e ∈ accruals texts d, e.key < (posting kind hkind d).key

/-- The entries are in strict order, and are those of the inputs and the periods accrued daily,
    each once; the days of a period come before its posting. -/
structure RunSchedule.HoldsEvery (texts : InputTexts) (a : ScheduleArguments)
    (schedule : RunSchedule ScheduledItem) : Prop where
  increasing : schedule.entries.Pairwise fun x y => x.key < y.key
  exactly : schedule.entries.Perm
    (a.inputEntries texts ++ dailyEntries texts a.interest.items a.borrowFees.items)
  interest : PeriodInput.AccruesFirst texts .interest (by decide) a.interest.items
  borrowFees : PeriodInput.AccruesFirst texts .borrowFee (by decide) a.borrowFees.items

section
variable {texts : InputTexts} {a : ScheduleArguments} {schedule : RunSchedule ScheduledItem}
  {kind : ScheduleKind} {hkind : kind ≠ .rate} {s : Supply PeriodInput}

theorem mem_daysOf {start «end» day : ℤ} : day ∈ daysOf start «end» ↔ start ≤ day ∧ day < «end» := by
  simp only [daysOf, List.mem_map, List.mem_range]
  constructor
  · rintro ⟨n, hn, rfl⟩
    omega
  · rintro ⟨hstart, hend⟩
    exact ⟨(day - start).toNat, by omega, by omega⟩

theorem DailyAccrual.instant_mono (accrual : DailyAccrual) : Monotone accrual.instant := by
  intro day later hle
  have hinstant : accrual.clock.instantOf (day * dayLength + accrual.cutoff) ≤
      accrual.clock.instantOf (later * dayLength + accrual.cutoff) :=
    accrual.clock.instantOf_mono accrual.cutoff hle
  exact div_le_div_of_nonneg_right (by exact_mod_cast hinstant) (by norm_num)

/-- **No day accrues after its period is posted.** -/
theorem PeriodInput.accruesFirst (items : List PeriodInput)
    (hafter : kind.place = .afterRecords) (hrank : ScheduleKind.accrual.rank < kind.rank) :
    AccruesFirst texts kind hkind items := by
  intro d _ e he
  obtain ⟨day, hday, rfl⟩ := List.mem_map.mp he
  have hlast : d.accrual.instant day ≤ d.period.at_ :=
    (d.accrual.instant_mono (by have := (mem_daysOf.mp hday).2; omega)).trans d.cutoffs
  rw [ScheduleEntry.key, ScheduleEntry.key, Prod.Lex.toLex_lt_toLex]
  have hslot : (posting kind hkind d).slot =
      toLex (d.period.at_, SchedulePlace.afterRecords.toNat) := by
    change toLex (d.period.at_, kind.place.toNat) = _
    rw [hafter]
  rw [hslot]
  rcases hlast.lt_or_eq with hbefore | hsame
  · left
    exact Prod.Lex.toLex_lt_toLex.mpr (Or.inl hbefore)
  · right
    constructor
    · change toLex (d.accrual.instant day, SchedulePlace.afterRecords.toNat) = _
      rw [hsame]
    · exact Prod.Lex.toLex_lt_toLex.mpr (Or.inl hrank)

theorem PeriodInput.dailyEntry_eq_nil {p : PeriodInput} :
    p.dailyEntry texts kind hkind = [] ↔ ∃ period, p = .plain period := by
  cases p with
  | plain period => simp [dailyEntry]
  | daily d => simp [dailyEntry]

/-- What a second reading makes entries of is all there is iff it rereads what is daily. -/
theorem Supply.reread_length (texts : InputTexts) {kind : ScheduleKind} (hkind : kind ≠ .rate)
    (s : Supply PeriodInput) :
    (s.read.2.items.flatMap (PeriodInput.dailyEntry texts kind hkind)).length ≤
        (s.items.flatMap (PeriodInput.dailyEntry texts kind hkind)).length ∧
      ((s.items.flatMap (PeriodInput.dailyEntry texts kind hkind)).length ≤
        (s.read.2.items.flatMap (PeriodInput.dailyEntry texts kind hkind)).length ↔
          s.RereadsDaily) := by
  have hnil : s.items.flatMap (PeriodInput.dailyEntry texts kind hkind) = [] ↔
      ∀ p ∈ s.items, ∃ period, p = .plain period := by
    simp only [List.flatMap_eq_nil_iff, PeriodInput.dailyEntry_eq_nil]
  unfold Supply.read Supply.RereadsDaily
  cases s.again with
  | true => simp
  | false =>
    simp only [Bool.false_eq_true, if_false, false_or, List.flatMap_nil, List.length_nil,
      Nat.le_zero, List.length_eq_zero_iff, Nat.zero_le, true_and]
    exact hnil

theorem Supply.RereadsDaily.flatMap_eq (h : s.RereadsDaily) :
    s.read.2.items.flatMap (PeriodInput.dailyEntry texts kind hkind) =
      s.items.flatMap (PeriodInput.dailyEntry texts kind hkind) := by
  rcases h with hagain | hplain
  · simp [Supply.read, hagain]
  · have hnil : s.items.flatMap (PeriodInput.dailyEntry texts kind hkind) = [] := by
      rw [List.flatMap_eq_nil_iff]
      exact fun p hp => PeriodInput.dailyEntry_eq_nil.mpr (hplain p hp)
    unfold Supply.read
    split_ifs
    · rfl
    · rw [hnil, List.flatMap_nil]

/-- **What is read twice is all there** iff it can be read twice or holds nothing daily. -/
theorem dailyEntries_reread_iff :
    (dailyEntries texts a.interest.read.2.items a.borrowFees.read.2.items).Perm
      (dailyEntries texts a.interest.items a.borrowFees.items) ↔ a.RereadsDaily := by
  constructor
  · intro hperm
    have hlength := hperm.length_eq
    simp only [dailyEntries, List.length_append] at hlength
    obtain ⟨hinterest, hinterestIff⟩ := Supply.reread_length texts
      (by decide : ScheduleKind.interest ≠ .rate) a.interest
    obtain ⟨hfees, hfeesIff⟩ := Supply.reread_length texts
      (by decide : ScheduleKind.borrowFee ≠ .rate) a.borrowFees
    exact ⟨hinterestIff.mp (by omega), hfeesIff.mp (by omega)⟩
  · rintro ⟨hinterest, hfees⟩
    rw [dailyEntries, dailyEntries, hinterest.flatMap_eq, hfees.flatMap_eq]

theorem kind_of_mem_records {e : InputEntry} (he : e ∈ a.recordEntries) : e.kind = .record := by
  simp only [ScheduleArguments.recordEntries, List.mem_append, List.mem_flatMap] at he
  rcases he with ⟨x, -, he⟩ | ⟨x, -, he⟩
  · unfold DeclaredExchange.recordEntry at he
    split at he
    · rw [List.mem_singleton.mp he]
      rfl
    · cases he
  · unfold DeclaredExchange.announcements at he
    split at he
    · obtain ⟨_, -, rfl⟩ := List.mem_map.mp he
      rfl
    · cases he

theorem kind_of_mem_daily {interest fees : List PeriodInput} {e : InputEntry}
    (he : e ∈ dailyEntries texts interest fees) : e.kind ≠ .record := by
  have hentry : ∀ {kind : ScheduleKind} {hkind : kind ≠ .rate} {items : List PeriodInput},
      kind ≠ .record → e ∈ items.flatMap (PeriodInput.dailyEntry texts kind hkind) →
        e.kind ≠ .record := by
    intro kind hkind items hrecord he
    obtain ⟨p, -, he⟩ := List.mem_flatMap.mp he
    cases p with
    | plain period => cases he
    | daily d =>
      rcases List.mem_cons.mp he with rfl | he
      · exact hrecord
      · obtain ⟨day, -, rfl⟩ := List.mem_map.mp he
        exact fun hc => nomatch hc
  rcases List.mem_append.mp he with he | he
  · exact hentry (by decide) he
  · exact hentry (by decide) he

theorem RunSchedule.perm_of_ordering {entries : List InputEntry} {maxAge : Option Instant}
    (h : RunSchedule.ordering entries maxAge = .ok schedule) : schedule.entries.Perm entries := by
  unfold RunSchedule.ordering at h
  split_ifs at h with hkeys
  obtain rfl := ok_inj.mp h
  exact sortBy_perm _ _

theorem RunSchedule.of_ok (h : RunSchedule.of texts a = .ok schedule) :
    schedule.entries.Perm (a.inputEntries texts ++
      dailyEntries texts a.interest.read.2.items a.borrowFees.read.2.items ++ a.recordEntries) := by
  obtain ⟨_, -, h⟩ := bind_ok.mp h
  exact RunSchedule.perm_of_ordering h

end

/-- **A schedule holds every input it was given, once**, iff what is read twice can be or holds
    no period accrued daily, and no action has anything recorded; the entries that actions have
    recorded apart, iff the first. -/
theorem holds_every_input_iff (texts : InputTexts) (a : ScheduleArguments)
    (schedule : RunSchedule ScheduledItem) (h : RunSchedule.of texts a = .ok schedule) :
    (schedule.HoldsEvery texts a ↔ a.RereadsDaily ∧ a.recordEntries = []) ∧
      (schedule.entries.Perm (a.inputEntries texts ++
        dailyEntries texts a.interest.items a.borrowFees.items ++ a.recordEntries) ↔
          a.RereadsDaily) := by
  have hentries := RunSchedule.of_ok h
  refine ⟨⟨fun hholds => ?_, fun ⟨hreread, hrecords⟩ => ?_⟩, ?_⟩
  · have hperm := hentries.symm.trans hholds.exactly
    rw [List.append_assoc, List.perm_append_left_iff] at hperm
    have hrecords : a.recordEntries = [] := by
      refine List.eq_nil_iff_forall_not_mem.mpr fun e he => ?_
      have hdaily := hperm.mem_iff.mp (List.mem_append_right _ he)
      exact kind_of_mem_daily hdaily (kind_of_mem_records he)
    rw [hrecords, List.append_nil] at hperm
    exact ⟨dailyEntries_reread_iff.mp hperm, hrecords⟩
  · rw [hrecords, List.append_nil] at hentries
    refine ⟨schedule.ordered, ?_, ?_, ?_⟩
    · exact hentries.trans (List.Perm.append_left _ (dailyEntries_reread_iff.mpr hreread))
    · exact PeriodInput.accruesFirst _ rfl (by decide)
    · exact PeriodInput.accruesFirst _ rfl (by decide)
  · rw [hentries.congr_left, List.perm_append_right_iff, List.perm_append_left_iff]
    exact dailyEntries_reread_iff

def plainTexts : InputTexts where
  amount q := toString q
  instant t := toString t
  isoDate day := toString day

/-- Three days of interest accrued at midnight of universal time. -/
def threeDays : PeriodInput :=
  .daily {
    period := { currency := some "USD", start := 0, «end» := 3, at_ := 259200, reference := "" }
    accrual := { clock := ⟨fun _ => 0, fun _ => by norm_num [dayLength, hourLength]⟩, cutoff := 0 }
    cutoffs := by norm_num [DailyAccrual.instant, WallClock.instantOf, dayLength, hourLength] }

def interestOnly (interest : Supply PeriodInput) : ScheduleArguments where
  observations := ⟨[], true⟩
  rates := ⟨[], true⟩
  fundings := ⟨[], true⟩
  cashFlows := ⟨[], true⟩
  distributions := ⟨[], true⟩
  fundingRates := ⟨[], true⟩
  splits := ⟨[], true⟩
  timers := ⟨[], true⟩
  settlements := ⟨[], true⟩
  rateMaxAgeSeconds := none
  exercises := ⟨[], true⟩
  assignments := ⟨[], true⟩
  expiries := ⟨[], true⟩
  interest := interest
  borrowFees := ⟨[], true⟩
  exchanges := ⟨[], true⟩
  payments := ⟨[], true⟩
  surfaces := ⟨[], true⟩
  auctions := ⟨[], true⟩

theorem holds_every_input_three : ∃ schedule,
    RunSchedule.of plainTexts (interestOnly ⟨[threeDays], true⟩) = .ok schedule ∧
      schedule.HoldsEvery plainTexts (interestOnly ⟨[threeDays], true⟩) := by
  obtain ⟨schedule, hof, -⟩ := exists_ok_of
    (x := RunSchedule.of plainTexts (interestOnly ⟨[threeDays], true⟩)) (fun _ => True)
    (by decide +kernel)
  exact ⟨schedule, hof, (holds_every_input_iff plainTexts _ schedule hof).1.mpr
    ⟨⟨Or.inl rfl, Or.inl rfl⟩, rfl⟩⟩

/-- **Interest that can be read once is lost**: neither its days nor its posting are entries. -/
theorem interest_read_once_is_lost : ∃ schedule,
    RunSchedule.of plainTexts (interestOnly ⟨[threeDays], false⟩) = .ok schedule ∧
      schedule.entries = [] ∧
      ¬ schedule.HoldsEvery plainTexts (interestOnly ⟨[threeDays], false⟩) := by
  refine ⟨⟨[], none, .nil⟩, rfl, rfl, fun hholds => ?_⟩
  have hlength := hholds.exactly.length_eq
  revert hlength
  decide +kernel

end AlphaLab
