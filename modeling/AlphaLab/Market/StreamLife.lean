/-
  The life of a stream (`market/stream.py`): connecting, subscribing, polling, reopening
  and returning, as the reader of `records()` goes through them while another thread may
  call `stop` between any two of its steps.

  `StreamLife.step` is one step of either; `StreamLife.acts` is what the reader did, as the
  venue and its consumer see it, and `Lawful` what a log of it must be: the reading ends
  only when it is stopped or its attempts are spent, a drop is followed by an attempt, and
  a connection that is polled was subscribed.
-/
import AlphaLab.Lib.Chronicle
import AlphaLab.Market.Stream

namespace AlphaLab

open Fallible

variable {β α : Type}

/-! ## The reader -/

inductive StreamAct where
  | opened (connection : ℕ)
  | subscribed (connection : ℕ)
  | polled (connection : ℕ)
  /-- the connection is found closed, and not by `stop` -/
  | dropped
  | attempted
  | refused
  /-- the generator returns, after `stop` was called or not -/
  | returned (stopped : Bool)
  | raised
deriving DecidableEq

inductive StreamPhase (β : Type) where
  | idle
  | starting
  | connecting (reopening : Bool)
  | subscribing (reopening : Bool)
  | looping
  | polling
  | polled (message : Option (Instant × WireMessage β))
  | reconnecting
  | waited

structure StreamLife (β : Type) where
  source : StreamSource
  phase : StreamPhase β
  opened : ℕ
  closed : Bool
  acts : List StreamAct

def StreamLife.initial : StreamLife β := ⟨.initial, .idle, 0, true, []⟩

inductive PollOutcome (β : Type) where
  | message (now : Instant) (message : WireMessage β)
  | silence
  | closed
  | failed

/-- What the reader is given to go on with, and what others do. -/
inductive StreamInput (β : Type) where
  | records
  | stop
  | turn
  | connected (opened : Bool)
  | sent (accepted : Bool)
  | polled (outcome : PollOutcome β)
  | judged (late : Bool)

inductive LifeRefusal where
  | alreadyReading
  | elsewhere

namespace StreamLife

variable (c : StreamConfig β α) (s : StreamLife β)

def act (s : StreamLife β) (a : StreamAct) : StreamLife β := { s with acts := s.acts ++ [a] }

def returns (s : StreamLife β) : StreamLife β :=
  { s.act (.returned s.source.stopped) with
    phase := .idle, source := { s.source with reading := false } }

def raises (s : StreamLife β) : StreamLife β :=
  { s.act .raised with phase := .idle, source := { s.source with reading := false } }

/-- A connection could not be opened, or not be subscribed: an error at the start, and
    `_reconnect` answers with none. -/
def unconnected (s : StreamLife β) (reopening : Bool) : StreamLife β :=
  if reopening then (s.act .refused).returns else s.raises

def reconnect : StreamLife β :=
  if c.maxReconnects.any (fun limit => limit ≤ (s.source.stats.reconnects : ℤ)) then s.returns
  else
    { s with
      phase := .waited
      source := s.source.counting fun n => { n with reconnects := n.reconnects + 1 } }

def received (now : Instant) (m : WireMessage β) : StreamLife β :=
  match (s.source.counting fun n => { n with received := n.received + 1 }).recordFrom c now m with
  | (source, .dropped) => { s with phase := .looping, source := source }
  | (source, .raised) => raises { s with source := source }
  | (source, .record _) =>
    { s with
      phase := .looping
      source := source.counting fun n => { n with yielded := n.yielded + 1 } }

def judged (message : Option (Instant × WireMessage β)) (late : Bool) : StreamLife β :=
  if s.closed ∧ ¬ s.source.stopped then { s.act .dropped with phase := .reconnecting }
  else
    match message with
    -- silence past the liveness limit closes the connection
    | none => { s with phase := .looping, closed := s.closed || late }
    | some (now, m) => s.received c now m

def step : StreamInput β → Except LifeRefusal (StreamLife β)
  | .records =>
    match s.phase with
    | .idle => .ok { s with phase := .starting, source := { s.source with reading := true } }
    | _ => .error .alreadyReading
  | .stop => .ok { s with source := { s.source with stopped := true }, closed := true }
  | .turn =>
    match s.phase with
    | .starting => .ok (if s.source.stopped then s.returns else { s with phase := .connecting false })
    | .looping =>
      .ok (if s.source.stopped then s.returns else { s.act (.polled s.opened) with phase := .polling })
    | .reconnecting => .ok (s.reconnect c)
    | .waited =>
      .ok (if s.source.stopped then s.returns
        else { s.act .attempted with phase := .connecting true })
    | _ => .error .elsewhere
  | .connected opened =>
    match s.phase with
    | .connecting reopening =>
      .ok (if opened then
          { s.act (.opened (s.opened + 1)) with
            phase := .subscribing reopening, opened := s.opened + 1 }
        else s.unconnected reopening)
    | _ => .error .elsewhere
  | .sent accepted =>
    match s.phase with
    | .subscribing reopening =>
      .ok (if accepted then
          { s.act (.subscribed s.opened) with phase := .looping, closed := false }
        else s.unconnected reopening)
    | _ => .error .elsewhere
  | .polled outcome =>
    match s.phase with
    | .polling =>
      .ok (match outcome with
        | .message now m => { s with phase := .polled (some (now, m)) }
        | .silence => { s with phase := .polled none }
        | .closed | .failed => { s with phase := .polled none, closed := true })
    | _ => .error .elsewhere
  | .judged late =>
    match s.phase with
    | .polled message => .ok (s.judged c message late)
    | _ => .error .elsewhere

end StreamLife

/-- The attempts are spent: there are as many as `max_reconnects`, a negative one being none. -/
def Spent (c : StreamConfig β α) (attempts : ℕ) : Prop :=
  ∃ limit, c.maxReconnects = some limit ∧ (attempts : ℤ) = max limit 0

/-- **What an act must be, after those before it.**  The reading returns only when it is
    stopped or its attempts are spent; a connection that is polled was subscribed; and what
    follows a drop, or an attempt that was refused, is another attempt or the return. -/
def Right (c : StreamConfig β α) (earlier : List StreamAct) (a : StreamAct) : Prop :=
  (a = .returned false → Spent c (earlier.count .attempted)) ∧
  (∀ connection, a = .polled connection → .subscribed connection ∈ earlier) ∧
  (earlier.getLast? = some .dropped ∨ earlier.getLast? = some .refused →
    a = .attempted ∨ ∃ stopped, a = .returned stopped)

abbrev Lawful (c : StreamConfig β α) (acts : List StreamAct) : Prop := Chronicle (Right c) acts

namespace StreamLife

/-- Whether a step asks for a connection again and gets none. -/
def Refuses (s : StreamLife β) (i : StreamInput β) : Prop :=
  (s.phase = .connecting true ∧ i = .connected false) ∨
    (s.phase = .subscribing true ∧ i = .sent false)

/-- **No attempt is refused while others are left**, unless the stream is stopped. -/
def Meets (c : StreamConfig β α) (s : StreamLife β) (i : StreamInput β) : Prop :=
  s.Refuses i → s.source.stopped = true ∨ Spent c s.source.stats.reconnects

end StreamLife

end AlphaLab
