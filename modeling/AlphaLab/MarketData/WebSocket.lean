/-
  The client side of a WebSocket (`marketdata/websocket.py`).

  * `WebSocketConnection` is one open connection: what was read and not yet used, the
    fragments of a message in progress, what was written, and what reading the socket will
    answer;
  * `fill`, `readFrame` and `poll` read, `sendFrame` writes one masked frame;
  * `ServerFrame.encode` is a frame as a server writes it, `converse` what a sequence of them
    says and `decodeFrame` what a client's frame does, as RFC 6455 has it.
-/
import AlphaLab.Lib.Runs

namespace AlphaLab

/-! ## Bytes -/

abbrev Bytes := List UInt8

/-- `_mask`: each byte with its byte of a repeating key of four. -/
def mask (payload key : Bytes) : Bytes :=
  payload.mapIdx fun index byte => byte ^^^ key.getD (index % 4) 0

/-- `struct.unpack` of an unsigned integer, the highest byte first. -/
def unpack (bytes : Bytes) : ℕ := bytes.foldl (fun n byte => n * 256 + byte.toNat) 0

/-- `struct.pack` of an unsigned integer into so many bytes. -/
def pack : ℕ → ℕ → Bytes
  | 0, _ => []
  | width + 1, n => pack width (n / 256) ++ [UInt8.ofNat n]

/-- `bytes.decode` of UTF-8. -/
def decodeText (bytes : Bytes) : Option String := String.fromUTF8? ⟨bytes.toArray⟩

/-- `str.encode` into UTF-8. -/
def encodeText (text : String) : Bytes := text.toByteArray.data.toList

def maxFrameBytes : ℕ := 16 * 1024 * 1024

inductive Opcode where
  | continuation | text | binary | close | ping | pong
deriving DecidableEq

def Opcode.code : Opcode → UInt8
  | continuation => 0x0
  | text => 0x1
  | binary => 0x2
  | close => 0x8
  | ping => 0x9
  | pong => 0xA

/-! ## The connection -/

inductive WebSocketError where
  | readFailed
  | closedByPeer (midFrame : Bool)
  | reservedBit
  | frameTooLong (length : ℕ)
  | nothingToContinue
  | messageInProgress
  | unknownOpcode (code : UInt8)
  | notText
  | writeFailed

/-- What one `recv` answers: some bytes, none if the peer has closed. -/
inductive Recv where
  | chunk (bytes : Bytes)
  | timeout
  | failed

/-- The bytes a `recv` brings. -/
def Recv.bytes : Recv → Bytes
  | chunk bytes => bytes
  | timeout | failed => []

/-- The bytes a number of `recv`s bring. -/
def received (arriving : List Recv) : Bytes := arriving.flatMap Recv.bytes

/-- `WebSocketConnection`, with what its socket will answer and was given. -/
structure WebSocketConnection where
  buffer : Bytes := []
  closed : Bool := false
  lastPong : Bytes := []
  fragments : List Bytes := []
  fragmentOpcode : Opcode := .text
  released : Bool := false
  arriving : List Recv
  sent : List Bytes := []
  refuses : Bool := false
  /-- `os.urandom(4)`, by the number of frames sent. -/
  newKey : ℕ → Bytes

inductive Interrupted where
  | timedOut
  | waiting
  | raised (error : WebSocketError)

abbrev Reading (α : Type) := ExceptT Interrupted (StateM WebSocketConnection) α

namespace WebSocketConnection

def release (c : WebSocketConnection) : WebSocketConnection :=
  { c with closed := true, released := true }

/-- `_send_frame`: the frame it writes. -/
def frameOf (opcode : Opcode) (payload key : Bytes) : Bytes :=
  let length := payload.length
  let first : UInt8 := 0x80 ||| opcode.code
  let header : Bytes :=
    if length < 126 then [first, 0x80 ||| UInt8.ofNat length]
    else if length < 2 ^ 16 then [first, 0x80 ||| 126] ++ pack 2 length
    else [first, 0x80 ||| 127] ++ pack 8 length
  header ++ key ++ mask payload key

def sendFrame (opcode : Opcode) (payload : Bytes) (c : WebSocketConnection) :
    Except WebSocketError Unit × WebSocketConnection :=
  if c.refuses then (.error .writeFailed, c.release)
  else (.ok (), { c with sent := c.sent ++ [frameOf opcode payload (c.newKey c.sent.length)] })

/-! ## Reading -/

/-- `_fill`, over what the socket answers. -/
def fillFrom (count : ℕ) (c : WebSocketConnection) :
    List Recv → Bytes → Except Interrupted Bytes × WebSocketConnection
  | arriving, buffer =>
    if count ≤ buffer.length then
      (.ok (buffer.take count), { c with buffer := buffer.drop count, arriving := arriving })
    else
      match arriving with
      | [] =>
        (.error (if buffer = [] then .timedOut else .waiting),
          { c with buffer := buffer, arriving := [] })
      | .timeout :: rest =>
        -- in the middle of a read the rest is still coming
        if buffer = [] then (.error .timedOut, { c with buffer := [], arriving := rest })
        else fillFrom count c rest buffer
      | .failed :: rest =>
        (.error (.raised .readFailed), release { c with buffer := buffer, arriving := rest })
      | .chunk [] :: rest =>
        (.error (.raised (.closedByPeer (buffer ≠ []))),
          release { c with buffer := buffer, arriving := rest })
      | .chunk (byte :: bytes) :: rest => fillFrom count c rest (buffer ++ byte :: bytes)

def fill (count : ℕ) : Reading Bytes := fun c => fillFrom count c c.arriving c.buffer

/-- A frame that was read: its opcode's number, whether it is the last, and its payload. -/
structure Frame where
  opcode : UInt8
  fin : Bool
  payload : Bytes

/-- The payload length a second byte announces, read further where it says so. -/
def readLength (second : UInt8) : Reading ℕ :=
  let length := (second &&& 0x7F).toNat
  if length = 126 then do
    let bytes ← fill 2
    pure (unpack bytes)
  else if length = 127 then do
    let bytes ← fill 8
    pure (unpack bytes)
  else pure length

def raiseIf (wrong : Prop) [Decidable wrong] (error : WebSocketError) : Reading Unit :=
  if wrong then throw (.raised error) else pure ()

def readKey (masked : Bool) : Reading Bytes := if masked then fill 4 else pure []

def readPayload (length : ℕ) : Reading Bytes := if length = 0 then pure [] else fill length

def readFrame : Reading Frame := do
  let header ← fill 2
  let first := header.getD 0 0
  let second := header.getD 1 0
  raiseIf (first &&& 0x70 ≠ 0) .reservedBit
  let length ← readLength second
  raiseIf (maxFrameBytes < length) (.frameTooLong length)
  let masked : Bool := second &&& 0x80 ≠ 0
  let key ← readKey masked
  let payload ← readPayload length
  pure {
    opcode := first &&& 0x0F
    fin := first &&& 0x80 ≠ 0
    payload := if masked then mask payload key else payload }

/-! ## Polling -/

/-- How a call of `poll` ends. -/
inductive Polled where
  | returned (message : Option String)
  | raised (error : WebSocketError)
  | waiting

/-- What one frame of a data message does; `none` goes on to the next frame. -/
def handleData (frame : Frame) (c : WebSocketConnection) : Option Polled × WebSocketConnection :=
  if ¬ frame.fin then (none, c)
  else
    let complete := c.fragments.flatten
    let cleared := { c with fragments := [] }
    if c.fragmentOpcode ≠ .text then (none, cleared)
    else
      match decodeText complete with
      | some text => (some (.returned (some text)), cleared)
      | none => (some (.raised .notText), cleared)

/-- What `poll` does with one frame; `none` goes on to the next. -/
def handle (frame : Frame) (c : WebSocketConnection) : Option Polled × WebSocketConnection :=
  if frame.opcode = Opcode.ping.code then
    match sendFrame .pong frame.payload c with
    | (.ok (), c) => (none, c)
    | (.error e, c) => (some (.raised e), c)
  else if frame.opcode = Opcode.pong.code then (none, { c with lastPong := frame.payload })
  else if frame.opcode = Opcode.close.code then
    -- the handshake is attempted, not required
    let answered := (sendFrame .close (frame.payload.take 2) { c with closed := true }).2
    (some (.returned none), answered.release)
  else if frame.opcode = Opcode.continuation.code then
    if c.fragments = [] then (some (.raised .nothingToContinue), c)
    else handleData frame { c with fragments := c.fragments ++ [frame.payload] }
  else if frame.opcode = Opcode.text.code ∨ frame.opcode = Opcode.binary.code then
    if c.fragments ≠ [] then (some (.raised .messageInProgress), c)
    else handleData frame { c with
      fragmentOpcode := if frame.opcode = Opcode.text.code then .text else .binary
      fragments := [frame.payload] }
  else (some (.raised (.unknownOpcode frame.opcode)), c)

/-- The loop of `poll`, over at most so many frames. -/
def pollLoop : ℕ → WebSocketConnection → Polled × WebSocketConnection
  | 0, c => (.waiting, c)
  | fuel + 1, c =>
    if c.closed then (.returned none, c)
    else
      match readFrame c with
      | (.error .timedOut, c) => (.returned none, c)
      | (.error .waiting, c) => (.waiting, c)
      | (.error (.raised e), c) => (.raised e, c)
      | (.ok frame, c) =>
        match handle frame c with
        | (some ended, c) => (ended, c)
        | (none, c) => pollLoop fuel c

theorem pollLoop_succ (fuel : ℕ) {c : WebSocketConnection} (hopen : c.closed = false) :
    pollLoop (fuel + 1) c = match readFrame c with
      | (.error .timedOut, c) => (.returned none, c)
      | (.error .waiting, c) => (.waiting, c)
      | (.error (.raised e), c) => (.raised e, c)
      | (.ok frame, c) =>
        match handle frame c with
        | (some ended, c) => (ended, c)
        | (none, c) => pollLoop fuel c := by
  conv_lhs => unfold pollLoop
  rw [hopen]
  rfl

def ahead (c : WebSocketConnection) : Bytes := c.buffer ++ received c.arriving

/-- `poll`: every frame that is read takes some of the bytes that are still to be used. -/
def poll (c : WebSocketConnection) : Polled × WebSocketConnection :=
  pollLoop (c.ahead.length + 1) c

/-- What successive calls of `poll` return, until one raises or does not return. -/
def polls : ℕ → WebSocketConnection → List (Option String) × Option Polled × WebSocketConnection
  | 0, c => ([], none, c)
  | n + 1, c =>
    match poll c with
    | (.returned message, c) =>
      let rest := polls n c
      (message :: rest.1, rest.2)
    | (ended, c) => ([], some ended, c)

end WebSocketConnection

/-! ## Frames of a server -/

inductive LengthForm where
  | seven | sixteen | sixtyFour

def LengthForm.extra : LengthForm → ℕ
  | seven => 0
  | sixteen => 2
  | sixtyFour => 8

def LengthForm.Holds (form : LengthForm) (length : ℕ) : Prop :=
  match form with
  | seven => length < 126
  | sixteen => length < 2 ^ 16
  | sixtyFour => length ≤ maxFrameBytes

structure ServerFrame where
  opcode : Opcode
  fin : Bool
  payload : Bytes
  form : LengthForm
  holds : form.Holds payload.length

namespace ServerFrame

variable (f : ServerFrame)

def second : UInt8 :=
  match f.form with
  | .seven => UInt8.ofNat f.payload.length
  | .sixteen => 126
  | .sixtyFour => 127

def header : Bytes := [(if f.fin then 0x80 else 0) ||| f.opcode.code, f.second]

def extended : Bytes := pack f.form.extra f.payload.length

def encode : Bytes := f.header ++ f.extended ++ f.payload

end ServerFrame

def encodeAll (frames : List ServerFrame) : Bytes := frames.flatMap ServerFrame.encode

structure Unfinished where
  isText : Bool
  bytes : Bytes

/-- The texts a finished message is: one, or none if it is binary.  A text is UTF-8. -/
def Unfinished.texts (m : Unfinished) : Option (List String) :=
  if m.isText then (decodeText m.bytes).map ([·]) else some []

/-- One frame heard, after a message in progress: the message then in progress, the texts it
    ends and the pings it is.  Nothing, where RFC 6455 has no such frame. -/
def hear (m : Option Unfinished) (f : ServerFrame) :
    Option (Option Unfinished × List String × List Bytes) :=
  let data (m : Unfinished) : Option (Option Unfinished × List String × List Bytes) :=
    if f.fin then m.texts.map fun texts => (none, texts, []) else some (some m, [], [])
  match f.opcode, m with
  | .ping, m => if f.fin ∧ f.payload.length < 126 then some (m, [], [f.payload]) else none
  | .pong, m => if f.fin ∧ f.payload.length < 126 then some (m, [], []) else none
  | .text, none => data ⟨true, f.payload⟩
  | .binary, none => data ⟨false, f.payload⟩
  | .continuation, some m => data { m with bytes := m.bytes ++ f.payload }
  | _, _ => none

/-- **What a sequence of frames says**: its text messages, in order, and its pings; nothing
    where it is not one that RFC 6455 allows before a connection is closed. -/
def converse : Option Unfinished → List ServerFrame → Option (List String × List Bytes)
  | _, [] => some ([], [])
  | m, f :: frames => do
    let (m, texts, pings) ← hear m f
    let rest ← converse m frames
    pure (texts ++ rest.1, pings ++ rest.2)

/-- RFC 6455: the bytes that follow a second byte to say the length, and the length. -/
def announced (second : UInt8) (rest : Bytes) : ℕ × ℕ :=
  let short := (second &&& 0x7F).toNat
  if short = 126 then (2, unpack (rest.take 2))
  else if short = 127 then (8, unpack (rest.take 8))
  else (0, short)

/-- RFC 6455: the fewest bytes beside the second that say a length. -/
def fewest (length : ℕ) : ℕ := if length < 126 then 0 else if length < 2 ^ 16 then 2 else 8

/-- RFC 6455: the opcode's number and the payload of the one whole message some bytes are: a
    last frame, masked, with no reserved bit set and its length said in the fewest bytes. -/
def decodeFrame : Bytes → Option (UInt8 × Bytes)
  | first :: second :: rest =>
    let (extra, length) := announced second rest
    let body := rest.drop extra
    if first &&& 0xF0 = 0x80 ∧ second &&& 0x80 ≠ 0 ∧ extra = fewest length ∧ length < 2 ^ 63 ∧
        body.length = 4 + length then
      some (first &&& 0x0F, mask (body.drop 4) (body.take 4))
    else none
  | _ => none

end AlphaLab
