/-
  The streaming market-data source (`market/stream.py`): what it makes of each message
  a venue sends, and its reading loop.

  `StreamSource.recordFrom` is one message: parsed, told from the control messages, judged
  by its symbol's sequence (`sequenceAdmits`), normalized, and dropped if stale; every
  rejection is counted.  `StreamSource.step` is the loop around it, with the drops,
  reopenings and the stop that come between messages.  The sequences outlive a
  reconnect.

  Normalization is a parameter: it is given the message and answers with a canonical
  input, or with nothing where it raises.
-/
import AlphaLab.Lib.Runs
import AlphaLab.Portfolio.Money

namespace AlphaLab

open Fallible

/-- What a message's `type` field holds. -/
inductive MessageKind where
  | quote
  | trade
  | bar
  | heartbeat
  | subscribed
  | error
  | other
  /-- an array or an object, which no set of kinds can be asked for -/
  | unhashable

/-- What a message's `sequence` field holds. -/
inductive SequenceField where
  | absent
  | number (raw : ℤ)
  | other

/-- A message that is an object; `symbol` is there when it is a text. -/
structure WirePayload (β : Type) where
  kind : MessageKind
  symbol : Option String
  sequence : SequenceField
  body : β

inductive WireMessage (β : Type) where
  | unreadable
  | object (payload : WirePayload β)

def MessageKind.isMarket : MessageKind → Bool
  | .quote | .trade | .bar => true
  | _ => false

/-- The symbol and sequence of a well-formed market message that carries one. -/
def WireMessage.key? {β : Type} : WireMessage β → Option (String × ℤ)
  | .unreadable => none
  | .object p =>
    if p.kind.isMarket then
      match p.symbol, p.sequence with
      | some symbol, .number raw => if symbol = "" then none else some (symbol, raw)
      | _, _ => none
    else none

/-! ## The source -/

structure CanonicalInput (α : Type) where
  timestamp : Instant
  value : α

structure MarketRecord (α : Type) where
  eventId : String
  timestamp : Instant
  event : CanonicalInput α

structure StreamConfig (β α : Type) where
  sourceId : String
  normalize : MessageKind → String → β → Option (CanonicalInput α)
  maxReconnects : Option ℤ
  maxRecordAge : Option Decimal

structure StreamStats where
  received : ℕ
  yielded : ℕ
  duplicates : ℕ
  gaps : ℕ
  malformed : ℕ
  stale : ℕ
  heartbeats : ℕ
  errors : ℕ
  reconnects : ℕ

structure StreamSource where
  sequences : Dict String ℤ
  counter : ℕ
  stats : StreamStats
  stopped : Bool
  reading : Bool

def StreamSource.initial : StreamSource :=
  ⟨.empty, 0, ⟨0, 0, 0, 0, 0, 0, 0, 0, 0⟩, false, false⟩

def counterWidth : ℕ := 12

/-- `f"{source_id}-{counter:012d}"` -/
def recordId (sourceId : String) (counter : ℕ) : String :=
  let digits := toString counter
  sourceId ++ "-" ++ String.ofList (List.replicate (counterWidth - digits.length) '0') ++ digits

/-- Whether a record is too old; a negative limit raises. -/
def isStale (timestamp now maxAge : Decimal) : Option Bool :=
  if maxAge < 0 then none else some (decide (maxAge < now - timestamp))

inductive Handled (α : Type) where
  | dropped
  | record (record : MarketRecord α)
  | raised

namespace StreamSource

variable {β α : Type}

def counting (s : StreamSource) (f : StreamStats → StreamStats) : StreamSource :=
  { s with stats := f s.stats }

def countMalformed (s : StreamSource) : StreamSource :=
  s.counting fun n => { n with malformed := n.malformed + 1 }

/-- `_sequence_admits`: whether the message is new, by its symbol's sequence. -/
def sequenceAdmits (s : StreamSource) (symbol : String) : SequenceField → StreamSource × Bool
  | .absent => (s, true)
  | .other => (s.countMalformed, false)
  | .number raw =>
    match s.sequences.get? symbol with
    | none => ({ s with sequences := s.sequences.set symbol raw }, true)
    | some last =>
      if raw ≤ last then
        (s.counting fun n => { n with duplicates := n.duplicates + 1 }, false)
      else
        -- a skip ahead is admitted and counted
        let gaps := if last + 1 < raw then s.stats.gaps + 1 else s.stats.gaps
        ({ s with sequences := s.sequences.set symbol raw,
                  stats := { s.stats with gaps := gaps } }, true)

def admitted (c : StreamConfig β α) (s : StreamSource) (now : Instant) (kind : MessageKind)
    (symbol : String) (body : β) : StreamSource × Handled α :=
  match c.normalize kind symbol body with
  | none => (s.countMalformed, .dropped)
  | some canonical =>
    match c.maxRecordAge.elim (some false) (isStale canonical.timestamp now) with
    | none => (s, .raised)
    | some true => (s.counting fun n => { n with stale := n.stale + 1 }, .dropped)
    | some false =>
      ({ s with counter := s.counter + 1 },
        .record ⟨recordId c.sourceId (s.counter + 1), canonical.timestamp, canonical⟩)

/-- `_record_from`: one message as a record, or what else became of it. -/
def recordFrom (c : StreamConfig β α) (s : StreamSource) (now : Instant) :
    WireMessage β → StreamSource × Handled α
  | .unreadable => (s.countMalformed, .dropped)
  | .object p =>
    match p.kind with
    | .heartbeat => (s.counting fun n => { n with heartbeats := n.heartbeats + 1 }, .dropped)
    | .subscribed => (s, .dropped)
    | .error => (s.counting fun n => { n with errors := n.errors + 1 }, .dropped)
    | .other => (s.countMalformed, .dropped)
    | .unhashable => (s, .raised)
    | .quote | .trade | .bar =>
      match p.symbol with
      | none => (s.countMalformed, .dropped)
      | some symbol =>
        if symbol = "" then (s.countMalformed, .dropped)
        else
          match s.sequenceAdmits symbol p.sequence with
          | (s, false) => (s, .dropped)
          | (s, true) => s.admitted c now p.kind symbol p.body

end StreamSource

/-! ## The reading loop -/

inductive StreamEvent (β : Type) where
  | records (opened : Bool)
  | message (now : Instant) (message : WireMessage β)
  /-- a poll that returns nothing within the liveness limit -/
  | silence
  /-- the connection is gone, by a failure, a close or silence, and is asked for again -/
  | dropped (reopened : Bool)
  | stop

inductive StreamRefusal where
  | alreadyReading
  | notReading

namespace StreamSource

variable {β α : Type}

/-- `_reconnect`: reopen, or end the reading. -/
def reconnect (c : StreamConfig β α) (s : StreamSource) (reopened : Bool) : StreamSource :=
  if s.stopped then { s with reading := false }
  else if c.maxReconnects.any (fun limit => limit ≤ (s.stats.reconnects : ℤ)) then { s with reading := false }
  else
    { s.counting (fun n => { n with reconnects := n.reconnects + 1 }) with reading := reopened }

def readMessage (c : StreamConfig β α) (s : StreamSource) (now : Instant) (m : WireMessage β) :
    StreamSource × Option (MarketRecord α) :=
  match (s.counting fun n => { n with received := n.received + 1 }).recordFrom c now m with
  | (s, .dropped) => ({ s with reading := !s.stopped }, none)
  | (s, .raised) => ({ s with reading := false }, none)
  | (s, .record r) =>
    ({ s.counting (fun n => { n with yielded := n.yielded + 1 }) with reading := !s.stopped },
      some r)

end StreamSource

structure StreamReading (β α : Type) where
  before : StreamSource
  now : Instant
  message : WireMessage β
  after : StreamSource
  record : Option (MarketRecord α)

structure StreamRead (β α : Type) where
  source : StreamSource
  readings : List (StreamReading β α)

namespace StreamRead

variable {β α : Type}

def initial : StreamRead β α := ⟨.initial, []⟩

def step (c : StreamConfig β α) (t : StreamRead β α) :
    StreamEvent β → Except StreamRefusal (StreamRead β α)
  | .records opened => do
    require (t.source.reading = false) .alreadyReading
    .ok { t with source := { t.source with reading := opened && !t.source.stopped } }
  | .message now m => do
    require (t.source.reading = true) .notReading
    let (after, record) := t.source.readMessage c now m
    .ok ⟨after, t.readings ++ [⟨t.source, now, m, after, record⟩]⟩
  | .silence => do
    require (t.source.reading = true) .notReading
    .ok { t with source := { t.source with reading := !t.source.stopped } }
  | .dropped reopened => do
    require (t.source.reading = true) .notReading
    .ok { t with source := t.source.reconnect c reopened }
  | .stop => .ok { t with source := { t.source with stopped := true } }

def keys (l : List (StreamReading β α)) : List (String × ℤ) := l.filterMap (·.message.key?)

end StreamRead

end AlphaLab
