/-
  Framing does not depend on how the bytes arrive, as long as no read times out between the
  parts of a frame.

  * `Heard` is the invariant of successive polls, `poll_heard` what one of them keeps of it;
  * `frames_heard`: the texts are returned and the pings answered, in order and once.
-/
import Mathlib.Data.List.ReduceOption
import AlphaLab.MarketData.WebSocket

namespace AlphaLab

open Fallible

/-! ## Bytes -/

theorem mask_mask (payload key : Bytes) : mask (mask payload key) key = payload := by
  apply List.ext_getElem
  · simp [mask]
  · intro i hi hi'
    simp [mask, UInt8.xor_assoc]

theorem length_pack (width n : ℕ) : (pack width n).length = width := by
  induction width generalizing n with
  | zero => rfl
  | succ width ih => simp [pack, ih]

theorem unpack_append_singleton (bytes : Bytes) (byte : UInt8) :
    unpack (bytes ++ [byte]) = unpack bytes * 256 + byte.toNat := by
  simp [unpack]

theorem unpack_pack {width n : ℕ} (h : n < 256 ^ width) : unpack (pack width n) = n := by
  induction width generalizing n with
  | zero =>
    have hzero : n = 0 := by simpa using h
    simp [pack, unpack, hzero]
  | succ width ih =>
    rw [pack, unpack_append_singleton, ih (by rw [pow_succ] at h; omega)]
    simp
    omega

theorem decodeText_encodeText (text : String) : decodeText (encodeText text) = some text := by
  rw [decodeText, encodeText]
  simp only [String.fromUTF8?, Array.toArray_toList, text.isValidUTF8, dif_pos]
  rfl

theorem received_append (a b : List Recv) : received (a ++ b) = received a ++ received b := by
  simp [received]

theorem encodeAll_append (a b : List ServerFrame) :
    encodeAll (a ++ b) = encodeAll a ++ encodeAll b := by
  simp [encodeAll]

theorem first_byte (fin : Bool) (opcode : Opcode) :
    let first : UInt8 := (if fin then 0x80 else 0) ||| opcode.code
    first &&& 0x70 = 0 ∧ first &&& 0x0F = opcode.code ∧ decide (first &&& 0x80 ≠ 0) = fin := by
  cases fin <;> cases opcode <;> decide

variable {n : ℕ}

theorem short_length (h : n < 126) :
    (UInt8.ofNat n) &&& 0x80 = 0 ∧ (UInt8.ofNat n &&& 0x7F).toNat = n ∧
      (0x80 ||| UInt8.ofNat n) &&& 0x80 ≠ 0 ∧ ((0x80 ||| UInt8.ofNat n) &&& 0x7F).toNat = n := by
  have hall : ∀ n < 126, (UInt8.ofNat n) &&& 0x80 = 0 ∧ (UInt8.ofNat n &&& 0x7F).toNat = n ∧
      (0x80 ||| UInt8.ofNat n) &&& 0x80 ≠ 0 ∧
        ((0x80 ||| UInt8.ofNat n) &&& 0x7F).toNat = n := by decide +kernel
  exact hall n h

/-- Every answer of the socket brings some bytes, or is a timeout. -/
def Arrives (arriving : List Recv) : Prop :=
  ∀ r ∈ arriving, r = .timeout ∨ ∃ byte bytes, r = .chunk (byte :: bytes)

/-- So many bytes end between the parts of a frame: after the two bytes of its header, or
    after its length, with more of it to come. -/
def BetweenParts (frames : List ServerFrame) (position : ℕ) : Prop :=
  ∃ earlier f later, frames = earlier ++ f :: later ∧
    (position = (encodeAll earlier).length + 2 ∨
      position = (encodeAll earlier).length + 2 + f.extended.length) ∧
    position < (encodeAll earlier).length + f.encode.length

/-- **No read times out between the parts of a frame.** -/
def Unbroken (frames : List ServerFrame) (arriving : List Recv) : Prop :=
  ∀ before after, arriving = before ++ .timeout :: after →
    ¬ BetweenParts frames (received before).length

namespace WebSocketConnection

/-- Some of what a socket answers is used, some is buffered, the rest still arrives. -/
def At (all : List Recv) (used : Bytes) (c : WebSocketConnection) : Prop :=
  ∃ before, all = before ++ c.arriving ∧ received before = used ++ c.buffer

def reading (c : WebSocketConnection) (buffer : Bytes) (arriving : List Recv) :
    WebSocketConnection := { c with buffer := buffer, arriving := arriving }

section
variable {c c' : WebSocketConnection} {all : List Recv} {used : Bytes}

variable {count : ℕ}

/-- A read that has begun, or whose first answer is no timeout, takes its bytes. -/
theorem fillFrom_taken : ∀ {arriving : List Recv} {buffer : Bytes},
    Arrives arriving → count ≤ (buffer ++ received arriving).length →
    (buffer ≠ [] ∨ ∀ rest, arriving ≠ .timeout :: rest) →
    ∃ before after buffer', arriving = before ++ after ∧
      buffer ++ received before = (buffer ++ received arriving).take count ++ buffer' ∧
      fillFrom count c arriving buffer =
        (.ok ((buffer ++ received arriving).take count), c.reading buffer' after)
  | arriving, buffer, harrives, hcount, hbegun => by
    by_cases henough : count ≤ buffer.length
    · refine ⟨[], arriving, buffer.drop count, rfl, ?_, ?_⟩
      · rw [List.take_append_of_le_length henough]
        simp [received]
      · unfold fillFrom
        rw [if_pos henough, List.take_append_of_le_length henough]
        rfl
    · cases arriving with
      | nil =>
        simp only [received, List.flatMap_nil, List.append_nil] at hcount
        exact absurd hcount henough
      | cons r rest =>
        have hrest : Arrives rest := fun r hr => harrives r (List.mem_cons_of_mem _ hr)
        rcases harrives r List.mem_cons_self with rfl | ⟨byte, bytes, rfl⟩
        · -- the read has begun, so it waits
          have hbuffer : buffer ≠ [] := hbegun.resolve_right fun h => h rest rfl
          obtain ⟨before, after, buffer', hsplit, htaken, hfill⟩ :=
            fillFrom_taken hrest hcount (Or.inl hbuffer)
          refine ⟨.timeout :: before, after, buffer', by rw [hsplit]; rfl, htaken, ?_⟩
          conv_lhs => unfold fillFrom
          rw [if_neg henough]
          dsimp only
          rw [if_neg hbuffer]
          exact hfill
        · have hmore : buffer ++ byte :: bytes ≠ [] := by simp
          have hsame : buffer ++ received (.chunk (byte :: bytes) :: rest) =
              buffer ++ byte :: bytes ++ received rest := by
            simp [received, Recv.bytes]
          rw [hsame] at hcount ⊢
          obtain ⟨before, after, buffer', hsplit, htaken, hfill⟩ :=
            fillFrom_taken hrest hcount (Or.inl hmore)
          refine ⟨.chunk (byte :: bytes) :: before, after, buffer', by rw [hsplit]; rfl, ?_, ?_⟩
          · rw [← htaken]
            simp [received, Recv.bytes]
          · conv_lhs => unfold fillFrom
            rw [if_neg henough]
            exact hfill

theorem fill_timedOut {rest : List Recv} (hcount : 0 < count) (hbuffer : c.buffer = [])
    (harriving : c.arriving = .timeout :: rest) :
    fill count c = (.error .timedOut, c.reading [] rest) := by
  rw [fill, harriving, hbuffer]
  unfold fillFrom
  rw [if_neg (by simp; omega)]
  rfl

theorem fill_exhausted (hcount : 0 < count) (hbuffer : c.buffer = []) (harriving : c.arriving = []) :
    fill count c = (.error .timedOut, c.reading [] []) := by
  rw [fill, harriving, hbuffer]
  unfold fillFrom
  rw [if_neg (by simp; omega)]
  rfl

/-- The next answer is no timeout, or something is buffered. -/
def Begun (c : WebSocketConnection) : Prop :=
  c.buffer ≠ [] ∨ ∀ rest, c.arriving ≠ .timeout :: rest

theorem At.begun (h : At all used c)
    (hnone : ∀ before rest, all = before ++ .timeout :: rest →
      (received before).length ≠ used.length) : c.Begun := by
  obtain ⟨before, hall, hused⟩ := h
  by_cases hbuffer : c.buffer = []
  · refine Or.inr fun rest hrest => ?_
    rw [hrest] at hall
    rw [hbuffer, List.append_nil] at hused
    exact hnone before rest hall (congrArg List.length hused)
  · exact Or.inl hbuffer

/-- **A read that begins takes its bytes.** -/
theorem fill_at (h : At all used c) (harrives : Arrives all) (hcount : n ≤ c.ahead.length)
    (hbegun : c.Begun) :
    ∃ buffer arriving, fill n c = (.ok (c.ahead.take n), c.reading buffer arriving) ∧
      At all (used ++ c.ahead.take n) (c.reading buffer arriving) ∧
      (c.reading buffer arriving).ahead = c.ahead.drop n ∧
      arriving.length ≤ c.arriving.length := by
  obtain ⟨before, hall, hused⟩ := h
  have harriving : Arrives c.arriving := fun r hr => harrives r (by rw [hall]; simp [hr])
  obtain ⟨first, after, buffer, hsplit, htaken, hfill⟩ :=
    fillFrom_taken (c := c) harriving hcount hbegun
  change c.buffer ++ received first = c.ahead.take n ++ buffer at htaken
  refine ⟨buffer, after, hfill, ⟨before ++ first, ?_, ?_⟩, ?_, by rw [hsplit]; simp⟩
  · change all = before ++ first ++ after
    rw [hall, hsplit, List.append_assoc]
  · rw [received_append, hused, List.append_assoc, htaken, List.append_assoc]
    rfl
  · have hwhole : c.ahead = c.ahead.take n ++ (buffer ++ received after) := by
      conv_lhs => rw [ahead, hsplit, received_append, ← List.append_assoc, htaken]
      rw [List.append_assoc]
    change buffer ++ received after = _
    have hlength : (c.ahead.take n).length = n := List.length_take_of_le hcount
    conv_rhs => rw [hwhole, List.drop_append_of_le_length (by omega)]
    rw [List.drop_eq_nil_of_le (by omega), List.nil_append]

/-! ## Frames -/

section
variable {α β : Type}

theorem bind_run {x : Reading α} {f : α → Reading β} {a : α} (h : x c = (.ok a, c')) :
    (x >>= f) c = f a c' := by
  change (ExceptT.bind x f) c = _
  simp only [ExceptT.bind, ExceptT.mk, bind, StateT.bind, ExceptT.bindCont, h]

theorem bind_interrupted {x : Reading α} {f : α → Reading β} {e : Interrupted}
    (h : x c = (.error e, c')) : (x >>= f) c = (.error e, c') := by
  change (ExceptT.bind x f) c = _
  simp only [ExceptT.bind, ExceptT.mk, bind, StateT.bind, ExceptT.bindCont]
  rw [h]
  rfl

end

def frameRead (f : ServerFrame) : Frame := ⟨f.opcode.code, f.fin, f.payload⟩

theorem second_byte (f : ServerFrame) : f.second &&& 0x80 = 0 := by
  rcases f with ⟨opcode, fin, payload, form, hholds⟩
  cases form with
  | seven => exact (short_length hholds).1
  | sixteen => exact (by decide : (126 : UInt8) &&& 0x80 = 0)
  | sixtyFour => exact (by decide : (127 : UInt8) &&& 0x80 = 0)

variable {f : ServerFrame}

/-- The length of a frame is read, where nothing times out before it. -/
theorem readLength_at {more : Bytes} (h : At all used c) (harrives : Arrives all)
    (hahead : c.ahead = f.extended ++ more) (hbegun : f.extended ≠ [] → c.Begun) :
    ∃ buffer arriving, readLength f.second c = (.ok f.payload.length, c.reading buffer arriving) ∧
      At all (used ++ f.extended) (c.reading buffer arriving) ∧
      (c.reading buffer arriving).ahead = more ∧ arriving.length ≤ c.arriving.length := by
  have hholds := f.holds
  have hsize : f.extended.length = f.form.extra := length_pack _ _
  have hread : ∀ width, f.form.extra = width → width ≠ 0 → f.payload.length < 256 ^ width →
      ∃ buffer arriving, fill width c = (.ok f.extended, c.reading buffer arriving) ∧
        unpack f.extended = f.payload.length ∧
        At all (used ++ f.extended) (c.reading buffer arriving) ∧
        (c.reading buffer arriving).ahead = more ∧ arriving.length ≤ c.arriving.length := by
    intro width hform hwidth hfits
    rw [hform] at hsize
    have hmore : f.extended ≠ [] := by
      intro hnone
      rw [hnone] at hsize
      exact hwidth hsize.symm
    obtain ⟨buffer, arriving, hfill, hat, hrest, hless⟩ := fill_at h harrives
      (n := width) (by rw [hahead, List.length_append]; omega) (hbegun hmore)
    have htake : c.ahead.take width = f.extended := by
      rw [hahead, ← hsize, List.take_left]
    rw [htake] at hfill hat
    have hunpack : unpack f.extended = f.payload.length := by
      rw [ServerFrame.extended, hform]
      exact unpack_pack hfits
    refine ⟨buffer, arriving, hfill, hunpack, hat, ?_, hless⟩
    rw [hrest, hahead, ← hsize, List.drop_left]
  cases hform : f.form with
  | seven =>
    rw [hform] at hholds
    have hnone : f.extended = [] := by
      rw [ServerFrame.extended, hform]
      rfl
    have hshort : (f.second &&& 0x7F).toNat = f.payload.length := by
      rw [ServerFrame.second, hform]
      exact (short_length hholds).2.1
    have hlength : f.payload.length < 126 := hholds
    refine ⟨c.buffer, c.arriving, ?_, ?_, ?_, le_rfl⟩
    · unfold readLength
      simp only [hshort]
      rw [if_neg (by omega), if_neg (by omega)]
      rfl
    · rw [hnone, List.append_nil]
      exact h
    · rw [hnone, List.nil_append] at hahead
      exact hahead
  | sixteen =>
    rw [hform] at hholds
    have hlong : f.payload.length < 2 ^ 16 := hholds
    obtain ⟨buffer, arriving, hfill, hunpack, hat, hrest⟩ :=
      hread 2 (by rw [hform]; rfl) (by decide) (by omega)
    refine ⟨buffer, arriving, ?_, hat, hrest⟩
    have hsecond : f.second = 126 := by rw [ServerFrame.second, hform]
    rw [hsecond]
    change (fill 2 >>= fun bytes => pure (unpack bytes)) c = _
    rw [bind_run hfill, hunpack]
    rfl
  | sixtyFour =>
    rw [hform] at hholds
    have hlong : f.payload.length ≤ maxFrameBytes := hholds
    obtain ⟨buffer, arriving, hfill, hunpack, hat, hrest⟩ :=
      hread 8 (by rw [hform]; rfl) (by decide) (by
        rw [maxFrameBytes] at hlong
        omega)
    refine ⟨buffer, arriving, ?_, hat, hrest⟩
    have hsecond : f.second = 127 := by rw [ServerFrame.second, hform]
    rw [hsecond]
    change (fill 8 >>= fun bytes => pure (unpack bytes)) c = _
    rw [bind_run hfill, hunpack]
    rfl

theorem payload_le_max (f : ServerFrame) : f.payload.length ≤ maxFrameBytes := by
  have hholds := f.holds
  rw [maxFrameBytes]
  cases hform : f.form with
  | seven =>
    rw [hform] at hholds
    have hlength : f.payload.length < 126 := hholds
    omega
  | sixteen =>
    rw [hform] at hholds
    have hlength : f.payload.length < 2 ^ 16 := hholds
    omega
  | sixtyFour =>
    rw [hform] at hholds
    exact hholds

theorem reading_reading (b b' : Bytes) (a a' : List Recv) :
    (c.reading b a).reading b' a' = c.reading b' a' := rfl

theorem raiseIf_pass {wrong : Prop} [Decidable wrong] {error : WebSocketError} (h : ¬ wrong) :
    raiseIf wrong error c = (.ok (), c) := by
  rw [raiseIf, if_neg h]
  rfl

/-- **A frame is read whole**, where its first read begins and nothing times out between its
    parts. -/
theorem readFrame_at {more : Bytes} (h : At all used c) (harrives : Arrives all)
    (hahead : c.ahead = f.encode ++ more) (hbegun : c.Begun) (hnone : ∀ before rest, all = before ++
      .timeout :: rest → ∀ n, (n = 2 ∨ n = 2 + f.extended.length) → n < f.encode.length → (received
      before).length ≠ used.length + n) :
    ∃ buffer arriving, readFrame c = (.ok (frameRead f), c.reading buffer arriving) ∧
      At all (used ++ f.encode) (c.reading buffer arriving) ∧
      (c.reading buffer arriving).ahead = more ∧ arriving.length ≤ c.arriving.length := by
  have hlength : f.encode.length = 2 + f.extended.length + f.payload.length := by
    simp only [ServerFrame.encode, ServerFrame.header, List.length_append, List.length_cons,
      List.length_nil]
  -- the two bytes of the header
  obtain ⟨buffer₁, arriving₁, hheader, hat₁, hahead₁, hless₁⟩ := fill_at (n := 2) h harrives
    (by rw [hahead, List.length_append]; omega) hbegun
  have htake : c.ahead.take 2 = f.header := by
    rw [hahead, ServerFrame.encode, ServerFrame.header]
    rfl
  have hdrop : c.ahead.drop 2 = f.extended ++ (f.payload ++ more) := by
    rw [hahead, ServerFrame.encode, ServerFrame.header]
    simp
  rw [htake] at hheader hat₁
  rw [hdrop] at hahead₁
  -- the length
  obtain ⟨buffer₂, arriving₂, hread, hat₂, hahead₂, hless₂⟩ :=
      readLength_at hat₁ harrives hahead₁ (by
    intro hext
    refine hat₁.begun fun before rest hall => ?_
    rw [List.length_append]
    refine hnone before rest hall 2 (Or.inl rfl) ?_
    have hpos := List.length_pos_iff.mpr hext
    omega)
  rw [reading_reading] at hread hat₂ hahead₂
  -- the payload
  have hpayload : ∃ buffer arriving, readPayload f.payload.length (c.reading buffer₂ arriving₂) =
      (.ok f.payload, c.reading buffer arriving) ∧
      At all (used ++ f.encode) (c.reading buffer arriving) ∧
      (c.reading buffer arriving).ahead = more ∧ arriving.length ≤ arriving₂.length := by
    have hused : used ++ f.header ++ f.extended ++ f.payload = used ++ f.encode := by
      simp [ServerFrame.encode]
    by_cases hempty : f.payload = []
    · refine ⟨buffer₂, arriving₂, ?_, ?_, ?_, le_rfl⟩
      · rw [hempty]
        rfl
      · rw [← hused, hempty, List.append_nil]
        exact hat₂
      · rw [hempty] at hahead₂
        exact hahead₂
    · have hpos := List.length_pos_iff.mpr hempty
      obtain ⟨buffer₃, arriving₃, hfill, hat₃, hahead₃, hless₃⟩ :=
        fill_at (n := f.payload.length) hat₂ harrives (by rw [hahead₂]; simp) (by
          refine hat₂.begun fun before rest hall => ?_
          rw [List.length_append, List.length_append, add_assoc]
          exact hnone before rest hall (2 + f.extended.length) (Or.inr rfl) (by omega))
      rw [hahead₂, List.take_left] at hfill hat₃
      rw [hahead₂, List.drop_left] at hahead₃
      refine ⟨buffer₃, arriving₃, ?_, ?_, hahead₃, hless₃⟩
      · rw [readPayload, if_neg hpos.ne']
        exact hfill
      · rw [← hused]
        exact hat₃
  obtain ⟨buffer₃, arriving₃, hlast, hat₃, hahead₃, hless₃⟩ := hpayload
  refine ⟨buffer₃, arriving₃, ?_, hat₃, hahead₃, hless₃.trans (hless₂.trans hless₁)⟩
  change readLength (f.header.getD 1 0) _ = _ at hread
  obtain ⟨hreserved, hopcode, hfin⟩ := first_byte f.fin f.opcode
  change f.header.getD 0 0 &&& 0x70 = 0 at hreserved
  change f.header.getD 0 0 &&& 0x0F = _ at hopcode
  change decide (f.header.getD 0 0 &&& 0x80 ≠ 0) = f.fin at hfin
  have hmasked : decide (f.header.getD 1 0 &&& 0x80 ≠ 0) = false := by
    change decide (f.second &&& 0x80 ≠ 0) = false
    rw [second_byte]
    rfl
  have hkey : readKey (decide (f.header.getD 1 0 &&& 0x80 ≠ 0)) (c.reading buffer₂ arriving₂) =
      (.ok [], c.reading buffer₂ arriving₂) := by
    rw [hmasked]
    rfl
  unfold readFrame
  rw [bind_run hheader]
  dsimp only
  rw [bind_run (raiseIf_pass (not_not.mpr hreserved)), bind_run hread,
    bind_run (raiseIf_pass (payload_le_max f).not_gt), bind_run hkey, bind_run hlast, hmasked,
    frameRead, hopcode, hfin]
  rfl

/-! ## Messages -/

def InProgress : Option Unfinished → WebSocketConnection → Prop
  | none, c => c.fragments = []
  | some m, c => c.fragments ≠ [] ∧ c.fragments.flatten = m.bytes ∧
      (c.fragmentOpcode = .text ↔ m.isText = true)

def pongs (newKey : ℕ → Bytes) (pings : List Bytes) : List Bytes :=
  pings.mapIdx fun index payload => frameOf .pong payload (newKey index)

structure Undisturbed (c c' : WebSocketConnection) : Prop where
  buffer : c'.buffer = c.buffer
  arriving : c'.arriving = c.arriving
  closed : c'.closed = c.closed
  refuses : c'.refuses = c.refuses
  newKey : c'.newKey = c.newKey

theorem Undisturbed.refl (c : WebSocketConnection) : Undisturbed c c := ⟨rfl, rfl, rfl, rfl, rfl⟩

/-- The end of `poll` that a text is, if there is one. -/
def ending (texts : List String) : Option Polled := texts.head?.map fun text => .returned (some text)

variable {m' : Option Unfinished}

/-- What a data frame does to a message that already has its payload. -/
theorem handleData_hear {m : Unfinished} {texts : List String} {pings : List Bytes}
    (hm : InProgress (some m) c) (h : (if f.fin then m.texts.map fun texts => (none, texts, []) else
      some (some m, [], [])) = some (m', texts, pings)) :
    ∃ c', handleData (frameRead f) c = (ending texts, c') ∧ texts.length ≤ 1 ∧
      InProgress m' c' ∧ Undisturbed c c' ∧ c'.sent = c.sent ∧ pings = [] := by
  obtain ⟨hfragments, hbytes, htext⟩ := hm
  by_cases hfin : f.fin = true
  · rw [if_pos hfin, Option.map_eq_some_iff] at h
    obtain ⟨texts', htexts, hsame⟩ := h
    obtain ⟨rfl, rfl, rfl⟩ := (by simpa using hsame : none = m' ∧ texts' = texts ∧ [] = pings)
    refine ⟨{ c with fragments := [] }, ?_, ?_, rfl, ⟨rfl, rfl, rfl, rfl, rfl⟩, rfl, rfl⟩
    · have hlast : ¬ ¬ (frameRead f).fin = true := not_not.mpr hfin
      rw [handleData, if_neg hlast]
      dsimp only
      rw [Unfinished.texts] at htexts
      by_cases hisText : m.isText = true
      · rw [if_pos hisText, ← hbytes, Option.map_eq_some_iff] at htexts
        obtain ⟨text, hdecoded, rfl⟩ := htexts
        rw [if_neg (not_not.mpr (htext.mpr hisText)), hdecoded]
        rfl
      · rw [if_neg hisText, Option.some.injEq] at htexts
        rw [if_pos fun hcode => hisText (htext.mp hcode), ← htexts]
        rfl
    · rw [Unfinished.texts] at htexts
      split_ifs at htexts
      · obtain ⟨text, -, rfl⟩ := Option.map_eq_some_iff.mp htexts
        exact le_rfl
      · rw [← Option.some.inj htexts]
        exact Nat.zero_le _
  · rw [if_neg hfin] at h
    obtain ⟨rfl, rfl, rfl⟩ := (by simpa using h : some m = m' ∧ [] = texts ∧ [] = pings)
    refine ⟨c, ?_, Nat.zero_le _, ⟨hfragments, hbytes, htext⟩, Undisturbed.refl c, rfl, rfl⟩
    have hmore : ¬ (frameRead f).fin = true := hfin
    rw [handleData, if_pos hmore]
    rfl

theorem pongs_append_singleton (newKey : ℕ → Bytes) (pings : List Bytes) (payload : Bytes) :
    pongs newKey (pings ++ [payload]) =
      pongs newKey pings ++ [frameOf .pong payload (newKey (pongs newKey pings).length)] := by
  simp [pongs, List.mapIdx_append]

variable {m : Option Unfinished}

/-- **What a frame does to a connection is what it says**: a text that ends is returned, a ping
    is answered. -/
theorem handle_hear {texts : List String} {pings answered : List Bytes} (hm : InProgress m c)
    (hopen : c.refuses = false) (hsent : c.sent = pongs c.newKey answered)
    (h : hear m f = some (m', texts, pings)) :
    ∃ c', handle (frameRead f) c = (ending texts, c') ∧ texts.length ≤ 1 ∧ InProgress m' c' ∧
      Undisturbed c c' ∧ c'.sent = pongs c.newKey (answered ++ pings) := by
  have hcode : (frameRead f).opcode = f.opcode.code := rfl
  unfold hear at h
  cases hopcode : f.opcode with
  | ping =>
    rw [hopcode] at h hcode
    dsimp only at h
    split_ifs at h
    obtain ⟨rfl, rfl, rfl⟩ := (by simpa using h : m = m' ∧ [] = texts ∧ [f.payload] = pings)
    refine ⟨{ c with sent := c.sent ++ [frameOf .pong f.payload (c.newKey c.sent.length)] }, ?_,
      Nat.zero_le _, ?_, ⟨rfl, rfl, rfl, rfl, rfl⟩, ?_⟩
    · rw [handle, if_pos hcode, sendFrame, hopen]
      rfl
    · cases m with
      | none => exact hm
      | some m => exact hm
    · rw [pongs_append_singleton, ← hsent]
  | pong =>
    rw [hopcode] at h hcode
    dsimp only at h
    split_ifs at h
    obtain ⟨rfl, rfl, rfl⟩ := (by simpa using h : m = m' ∧ [] = texts ∧ [] = pings)
    refine ⟨{ c with lastPong := f.payload }, ?_, Nat.zero_le _, ?_, ⟨rfl, rfl, rfl, rfl, rfl⟩, ?_⟩
    · rw [handle, hcode]
      rfl
    · cases m with
      | none => exact hm
      | some m => exact hm
    · rw [List.append_nil]
      exact hsent
  | close =>
    rw [hopcode] at h
    cases m <;> simp at h
  | text =>
    rw [hopcode] at h hcode
    cases m with
    | some m => simp at h
    | none =>
      have hnone : c.fragments = [] := hm
      obtain ⟨c', hhandle, hone, hm', hsame, hsent', rfl⟩ := handleData_hear (f := f)
        (c := { c with fragmentOpcode := .text, fragments := [f.payload] })
        (m := ⟨true, f.payload⟩) ⟨by simp, by simp, by simp⟩ h
      refine ⟨c', ?_, hone, hm', ⟨hsame.1, hsame.2, hsame.3, hsame.4, hsame.5⟩, ?_⟩
      · rw [← hhandle, handle, hcode, hnone]
        rfl
      · rw [hsent', List.append_nil]
        exact hsent
  | binary =>
    rw [hopcode] at h hcode
    cases m with
    | some m => simp at h
    | none =>
      have hnone : c.fragments = [] := hm
      obtain ⟨c', hhandle, hone, hm', hsame, hsent', rfl⟩ := handleData_hear (f := f)
        (c := { c with fragmentOpcode := .binary, fragments := [f.payload] })
        (m := ⟨false, f.payload⟩) ⟨by simp, by simp, by simp⟩ h
      refine ⟨c', ?_, hone, hm', ⟨hsame.1, hsame.2, hsame.3, hsame.4, hsame.5⟩, ?_⟩
      · rw [← hhandle, handle, hcode, hnone]
        rfl
      · rw [hsent', List.append_nil]
        exact hsent
  | continuation =>
    rw [hopcode] at h hcode
    cases m with
    | none => simp at h
    | some m =>
      obtain ⟨hfragments, hbytes, htext⟩ := hm
      obtain ⟨c', hhandle, hone, hm', hsame, hsent', rfl⟩ := handleData_hear (f := f)
        (c := { c with fragments := c.fragments ++ [f.payload] })
        (m := { m with bytes := m.bytes ++ f.payload }) ⟨by simp, by simp [hbytes], htext⟩ h
      refine ⟨c', ?_, hone, hm', ⟨hsame.1, hsame.2, hsame.3, hsame.4, hsame.5⟩, ?_⟩
      · rw [← hhandle, handle, hcode]
        change (if c.fragments = [] then _ else _) = _
        rw [if_neg hfragments]
        rfl
      · rw [hsent', List.append_nil]
        exact hsent

/-! ## Polls -/

/-- **A connection between two frames**: some pings are answered, some texts and pings are
    still to be heard. -/
structure Heard (frames : List ServerFrame) (arriving : List Recv) (keys : ℕ → Bytes)
    (answered : List Bytes) (texts : List String) (pings : List Bytes)
    (c : WebSocketConnection) : Prop where
  between : ∃ earlier later m, frames = earlier ++ later ∧ At arriving (encodeAll earlier) c ∧
    c.ahead = encodeAll later ∧ InProgress m c ∧ converse m later = some (texts, pings)
  unclosed : c.closed = false
  writes : c.refuses = false
  newKey : c.newKey = keys
  sent : c.sent = pongs keys answered

/-- Nothing is left to be heard, or some of what the socket answers was used. -/
def Progress (texts : List String) (pings : List Bytes) (c c' : WebSocketConnection) : Prop :=
  (texts = [] ∧ pings = []) ∨ c'.arriving.length < c.arriving.length

theorem two_le_length_encode (f : ServerFrame) : 2 ≤ f.encode.length := by
  simp [ServerFrame.encode, ServerFrame.header]

theorem begun_or_timedOut (h : At all used c) :
    c.Begun ∨ ∃ rest, readFrame c = (.error .timedOut, c.reading [] rest) ∧
      At all used (c.reading [] rest) ∧ (c.reading [] rest).ahead = c.ahead ∧
      rest.length < c.arriving.length := by
  by_cases hbegun : c.Begun
  · exact Or.inl hbegun
  · refine Or.inr ?_
    rw [Begun, not_or, not_not, not_forall] at hbegun
    obtain ⟨hbuffer, rest, hrest⟩ := hbegun
    rw [not_not] at hrest
    obtain ⟨before, hall, hused⟩ := h
    refine ⟨rest, bind_interrupted (fill_timedOut (by decide) hbuffer hrest),
      ⟨before ++ [.timeout], ?_, ?_⟩, ?_, ?_⟩
    · rw [hall, hrest, List.append_assoc]
      rfl
    · rw [received_append, hused, hbuffer]
      simp [received, Recv.bytes, reading]
    · simp [ahead, reading, hbuffer, hrest, received, Recv.bytes]
    · rw [hrest]
      exact Nat.lt_succ_self _

theorem arriving_nil (harrives : Arrives c.arriving) (hahead : c.ahead = []) (hbegun : c.Begun) :
    c.buffer = [] ∧ c.arriving = [] := by
  obtain ⟨hbuffer, hreceived⟩ := List.append_eq_nil_iff.mp hahead
  refine ⟨hbuffer, ?_⟩
  cases harriving : c.arriving with
  | nil => rfl
  | cons r rest =>
    rcases harrives r (by rw [harriving]; exact List.mem_cons_self) with rfl | ⟨byte, bytes, rfl⟩
    · exact absurd harriving (hbegun.resolve_left (not_not.mpr hbuffer) rest)
    · rw [harriving] at hreceived
      simp [received, Recv.bytes] at hreceived

variable {frames : List ServerFrame} {keys : ℕ → Bytes} {answered : List Bytes}
  {texts : List String} {pings : List Bytes}

/-- **A poll returns a text that was sent, or nothing after a timeout or at the end**, and the
    pings before are answered. -/
theorem pollLoop_heard (harrives : Arrives all) (hunbroken : Unbroken frames all) :
    ∀ {fuel : ℕ} {c : WebSocketConnection} {answered texts pings},
      Heard frames all keys answered texts pings c → c.ahead.length < fuel →
      ∃ c' pinged texts' pings' message, pollLoop fuel c = (.returned message, c') ∧
        Heard frames all keys (answered ++ pinged) texts' pings' c' ∧
        pings = pinged ++ pings' ∧ texts = message.toList ++ texts' ∧
        c'.arriving.length ≤ c.arriving.length ∧
        (message = none → Progress texts' pings' c c') := by
  intro fuel
  induction fuel with
  | zero =>
    intro c answered texts pings _ hfuel
    exact absurd hfuel (Nat.not_lt_zero _)
  | succ fuel ih =>
    intro c answered texts pings hheard hfuel
    obtain ⟨⟨earlier, later, m, hframes, hat, hahead, hm, hconverse⟩, hopen, hwrites, hkey, hsent⟩ :=
      hheard
    have hloop := pollLoop_succ fuel hopen
    have hinProgress : ∀ {b a}, InProgress m (c.reading b a) := by
      intro b a
      cases m with
      | none => exact hm
      | some m => exact hm
    rcases begun_or_timedOut hat with hbegun | ⟨rest, hread, hat', hahead', hless⟩
    · cases later with
      | nil =>
        -- the end: nothing is left
        have harriving : Arrives c.arriving := by
          obtain ⟨before, hall, -⟩ := hat
          exact fun r hr => harrives r (by rw [hall]; simp [hr])
        obtain ⟨hbuffer, hnone⟩ := arriving_nil harriving hahead hbegun
        have hread : readFrame c = (.error .timedOut, c.reading [] []) :=
          bind_interrupted (fill_exhausted (by decide) hbuffer hnone)
        obtain ⟨rfl, rfl⟩ := (by simpa [converse] using hconverse : [] = texts ∧ [] = pings)
        have hsame : c.reading [] [] = c := by rw [reading, ← hbuffer, ← hnone]
        refine ⟨c, [], [], [], none, ?_, ?_, rfl, rfl, le_rfl, fun _ => Or.inl ⟨rfl, rfl⟩⟩
        · rw [hloop, hread, hsame]
        · rw [List.append_nil]
          exact ⟨⟨earlier, [], m, hframes, hat, hahead, hm, rfl⟩, hopen, hwrites, hkey, hsent⟩
      | cons f later =>
        -- a frame is read, and handled
        obtain ⟨buffer, arriving, hread, hat', hahead', hless⟩ :=
          readFrame_at (f := f) hat harrives hahead hbegun (by
            intro before rest hall n hn hmore hlength
            refine hunbroken before rest hall ⟨earlier, f, later, hframes, ?_, by omega⟩
            rcases hn with rfl | rfl
            · exact Or.inl hlength
            · exact Or.inr (by omega))
        rw [converse] at hconverse
        cases hhear : hear m f with
        | none =>
          rw [hhear] at hconverse
          simp at hconverse
        | some heard =>
          obtain ⟨m', texts₁, pings₁⟩ := heard
          rw [hhear] at hconverse
          change (converse m' later >>= fun rest => some (texts₁ ++ rest.1, pings₁ ++ rest.2)) =
            some (texts, pings) at hconverse
          obtain ⟨⟨texts₂, pings₂⟩, hrest, hsame⟩ := Option.bind_eq_some_iff.mp hconverse
          obtain ⟨rfl, rfl⟩ :=
            (by simpa using hsame : texts₁ ++ texts₂ = texts ∧ pings₁ ++ pings₂ = pings)
          have hanswered : (c.reading buffer arriving).sent = pongs c.newKey answered :=
            hsent.trans (by rw [hkey])
          obtain ⟨c', hhandle, hone, hm', hundisturbed, hsent'⟩ :=
            handle_hear (hinProgress (b := buffer) (a := arriving)) hwrites hanswered hhear
          have hahead'' : c'.ahead = encodeAll later := by
            rw [ahead, hundisturbed.buffer, hundisturbed.arriving]
            exact hahead'
          have hheard' : Heard frames all keys (answered ++ pings₁) texts₂ pings₂ c' := by
            refine ⟨⟨earlier ++ [f], later, m', by rw [hframes]; simp, ?_, hahead'', hm', hrest⟩,
              hundisturbed.closed.trans hopen, hundisturbed.refuses.trans hwrites,
              hundisturbed.newKey.trans hkey, hsent'.trans ?_⟩
            · obtain ⟨before, hall, hused⟩ := hat'
              refine ⟨before, ?_, ?_⟩
              · rw [hundisturbed.arriving]
                exact hall
              · rw [hundisturbed.buffer, encodeAll_append]
                simpa [encodeAll] using hused
            · exact congrArg (pongs · _) hkey
          have hshrinks : c'.arriving.length ≤ c.arriving.length := by
            rw [hundisturbed.arriving]
            exact hless
          cases texts₁ with
          | cons text texts₁ =>
            obtain rfl : texts₁ = [] := by simpa using hone
            refine ⟨c', pings₁, texts₂, pings₂, some text, ?_, hheard', rfl, rfl, hshrinks,
              fun h => absurd h (Option.some_ne_none _)⟩
            rw [hloop, hread]
            dsimp only
            rw [hhandle]
            rfl
          | nil =>
            have hfuel' : c'.ahead.length < fuel := by
              have htwo := two_le_length_encode f
              rw [hahead, encodeAll, List.flatMap_cons, List.length_append] at hfuel
              rw [hahead'', encodeAll]
              omega
            obtain ⟨c'', pinged, texts', pings', message, hpoll, hheard'', hpings, htexts,
              hshrinks', hprogress⟩ := ih hheard' hfuel'
            refine ⟨c'', pings₁ ++ pinged, texts', pings', message, ?_, ?_, ?_, htexts,
              hshrinks'.trans hshrinks, fun hnone => ?_⟩
            · rw [hloop, hread]
              dsimp only
              rw [hhandle]
              exact hpoll
            · rw [← List.append_assoc]
              exact hheard''
            · rw [hpings, List.append_assoc]
            · rcases hprogress hnone with hdone | hless
              · exact Or.inl hdone
              · exact Or.inr (hless.trans_le hshrinks)
    · refine ⟨c.reading [] rest, [], texts, pings, none, ?_, ?_, rfl, rfl, hless.le,
        fun _ => Or.inr hless⟩
      · rw [hloop, hread]
      · rw [List.append_nil]
        exact ⟨⟨earlier, later, m, hframes, hat', hahead'.trans hahead, hinProgress, hconverse⟩, hopen,
          hwrites, hkey, hsent⟩

theorem poll_heard (harrives : Arrives all) (hunbroken : Unbroken frames all)
    (h : Heard frames all keys answered texts pings c) :
    ∃ c' pinged texts' pings' message, poll c = (.returned message, c') ∧
      Heard frames all keys (answered ++ pinged) texts' pings' c' ∧
      pings = pinged ++ pings' ∧ texts = message.toList ++ texts' ∧
      c'.arriving.length ≤ c.arriving.length ∧ (message = none → Progress texts' pings' c c') :=
  pollLoop_heard harrives hunbroken h (Nat.lt_succ_self _)

/-- **Successive polls**: what they return are the texts sent, in order; and after as many as
    there are texts and answers of the socket, all of them. -/
theorem polls_heard (harrives : Arrives all) (hunbroken : Unbroken frames all) :
    ∀ (n : ℕ) {c : WebSocketConnection} {answered texts pings},
      Heard frames all keys answered texts pings c →
      ∃ results c' pinged texts' pings', polls n c = (results, none, c') ∧
        c'.sent = pongs keys (answered ++ pinged) ∧ pings = pinged ++ pings' ∧
        texts = results.reduceOption ++ texts' ∧
        (texts.length + c.arriving.length < n → texts' = [] ∧ pings' = []) := by
  intro n
  induction n with
  | zero =>
    intro c answered texts pings h
    refine ⟨[], c, [], texts, pings, rfl, ?_, rfl, rfl, fun hn => absurd hn (by omega)⟩
    rw [List.append_nil]
    exact h.sent
  | succ n ih =>
    intro c answered texts pings h
    obtain ⟨c₁, pinged₁, texts₁, pings₁, message, hpoll, hheard, hpings, htexts, hless,
      hprogress⟩ := poll_heard harrives hunbroken h
    obtain ⟨results, c₂, pinged₂, texts₂, pings₂, hpolls, hsent, hpings', htexts', hdone⟩ :=
      ih hheard
    refine ⟨message :: results, c₂, pinged₁ ++ pinged₂, texts₂, pings₂, ?_, ?_, ?_, ?_,
      fun hn => ?_⟩
    · rw [polls, hpoll]
      simp only [hpolls]
    · rw [← List.append_assoc]
      exact hsent
    · rw [hpings, hpings', List.append_assoc]
    · rw [htexts, htexts']
      cases message <;> simp [List.reduceOption_cons_of_some, List.reduceOption_cons_of_none]
    · cases message with
      | some text =>
        refine hdone ?_
        rw [htexts, Option.toList_some, List.length_append, List.length_singleton] at hn
        omega
      | none =>
        rw [htexts, Option.toList_none, List.nil_append] at hn
        rcases hprogress rfl with ⟨hnoTexts, hnoPings⟩ | hfewer
        · rw [hnoTexts] at htexts'
          rw [hnoPings] at hpings'
          exact ⟨(List.append_eq_nil_iff.mp htexts'.symm).2,
            (List.append_eq_nil_iff.mp hpings'.symm).2⟩
        · exact hdone (by omega)

/-! ## Writing -/

/-- A header that announces a length in the fewest bytes, then the key and the masked payload. -/
theorem decodeFrame_of (width : ℕ) {opcode : Opcode} {second : UInt8} {payload key : Bytes}
    (hsecond : second &&& 0x80 ≠ 0) (hkey : key.length = 4) (hlength : payload.length < 2 ^ 63)
    (hannounced : announced second (pack width payload.length ++ (key ++ mask payload key)) =
      (width, payload.length)) (hfewest : width = fewest payload.length) :
    decodeFrame ((0x80 ||| opcode.code) :: second ::
      (pack width payload.length ++ (key ++ mask payload key))) = some (opcode.code, payload) := by
  have hfirst : (0x80 ||| opcode.code) &&& 0xF0 = 0x80 ∧
      (0x80 ||| opcode.code) &&& 0x0F = opcode.code := by cases opcode <;> decide
  have hbody : (key ++ mask payload key).length = 4 + payload.length := by simp [mask, hkey]
  rw [decodeFrame, hannounced]
  dsimp only
  rw [List.drop_left' (length_pack _ _), if_pos ⟨hfirst.1, hsecond, hfewest, hlength, hbody⟩,
    hfirst.2, List.drop_left' hkey, List.take_left' hkey, mask_mask]

theorem decodeFrame_frameOf (opcode : Opcode) {payload key : Bytes} (hkey : key.length = 4)
    (hlength : payload.length < 2 ^ 63) :
    decodeFrame (frameOf opcode payload key) = some (opcode.code, payload) := by
  rw [frameOf]
  by_cases hshort : payload.length < 126
  · obtain ⟨-, -, hmasked, hsaid⟩ := short_length hshort
    rw [if_pos hshort, List.append_assoc]
    refine decodeFrame_of 0 hmasked hkey hlength ?_ (by rw [fewest, if_pos hshort])
    rw [announced, hsaid, if_neg (by omega), if_neg (by omega)]
  · rw [if_neg hshort]
    by_cases hlong : payload.length < 2 ^ 16
    · rw [if_pos hlong, List.append_assoc, List.append_assoc]
      refine decodeFrame_of 2 (by decide) hkey hlength ?_
        (by rw [fewest, if_neg hshort, if_pos hlong])
      rw [announced, if_pos (by decide), List.take_left' (length_pack _ _),
        unpack_pack (by omega)]
    · rw [if_neg hlong, List.append_assoc, List.append_assoc]
      refine decodeFrame_of 8 (by decide) hkey hlength ?_
        (by rw [fewest, if_neg hshort, if_neg hlong])
      rw [announced, if_neg (by decide), if_pos (by decide), List.take_left' (length_pack _ _),
        unpack_pack (by omega)]

theorem hear_pings (h : hear m f = some (m', texts, pings)) :
    ∀ payload ∈ pings, payload.length < 126 := by
  unfold hear at h
  have hdata : ∀ m : Unfinished, (if f.fin then m.texts.map fun texts => (none, texts, [])
      else some (some m, [], [])) = some (m', texts, pings) → pings = [] := by
    intro m h
    split_ifs at h
    · obtain ⟨texts', -, hsame⟩ := Option.map_eq_some_iff.mp h
      exact (by simpa using hsame : none = m' ∧ texts' = texts ∧ [] = pings).2.2.symm
    · exact (by simpa using h : some m = m' ∧ [] = texts ∧ [] = pings).2.2.symm
  cases hopcode : f.opcode with
  | ping =>
    rw [hopcode] at h
    dsimp only at h
    split_ifs at h with hshort
    obtain ⟨-, -, rfl⟩ := (by simpa using h : m = m' ∧ [] = texts ∧ [f.payload] = pings)
    simpa using hshort.2
  | pong =>
    rw [hopcode] at h
    dsimp only at h
    split_ifs at h
    obtain ⟨-, -, rfl⟩ := (by simpa using h : m = m' ∧ [] = texts ∧ [] = pings)
    simp
  | close =>
    rw [hopcode] at h
    cases m <;> simp at h
  | text =>
    rw [hopcode] at h
    cases m with
    | none => simp [hdata _ h]
    | some m => simp at h
  | binary =>
    rw [hopcode] at h
    cases m with
    | none => simp [hdata _ h]
    | some m => simp at h
  | continuation =>
    rw [hopcode] at h
    cases m with
    | none => simp at h
    | some m => simp [hdata _ h]

theorem converse_pings (h : converse m frames = some (texts, pings)) :
    ∀ payload ∈ pings, payload.length < 126 := by
  induction frames generalizing m texts pings with
  | nil =>
    obtain ⟨-, rfl⟩ := (by simpa [converse] using h : [] = texts ∧ [] = pings)
    simp
  | cons f frames ih =>
    rw [converse] at h
    obtain ⟨⟨m', texts₁, pings₁⟩, hhear, hrest⟩ := Option.bind_eq_some_iff.mp h
    change (converse m' frames >>= fun rest => some (texts₁ ++ rest.1, pings₁ ++ rest.2)) =
      some (texts, pings) at hrest
    obtain ⟨⟨texts₂, pings₂⟩, hconverse, hsame⟩ := Option.bind_eq_some_iff.mp hrest
    obtain ⟨-, rfl⟩ :=
      (by simpa using hsame : texts₁ ++ texts₂ = texts ∧ pings₁ ++ pings₂ = pings)
    intro payload hpayload
    rcases List.mem_append.mp hpayload with hfirst | hlater
    · exact hear_pings hhear payload hfirst
    · exact ih hconverse payload hlater

theorem pongs_decode (hkeys : ∀ index, (keys index).length = 4)
    (hpings : ∀ payload ∈ pings, payload.length < 126) :
    (pongs keys pings).map decodeFrame =
      pings.map fun payload => some (Opcode.pong.code, payload) := by
  apply List.ext_getElem
  · simp [pongs]
  · intro i hi hi'
    rw [List.length_map] at hi'
    have hshort := hpings _ (List.getElem_mem hi')
    simp only [pongs, List.getElem_map, List.getElem_mapIdx]
    exact decodeFrame_frameOf .pong (hkeys i) (by omega)

/-- **What successive polls return are the texts that were sent, in order, and every ping is
    answered by one pong**, however the bytes arrive, if no read times out between the parts
    of a frame; and what is written decodes. -/
theorem frames_heard {arriving : List Recv}
    (hconverse : converse none frames = some (texts, pings)) (hkeys : ∀ index, (keys index).length = 4)
    (harrives : Arrives arriving) (hbytes : received arriving = encodeAll frames)
    (hunbroken : Unbroken frames arriving) :
    (∀ n, ∃ results c', polls n { arriving := arriving, newKey := keys } = (results, none, c') ∧
      results.reduceOption <+: texts ∧
      c'.sent.map decodeFrame <+: pings.map (fun payload => some (Opcode.pong.code, payload)) ∧
      (texts.length + arriving.length < n → results.reduceOption = texts ∧
        c'.sent.map decodeFrame = pings.map fun payload => some (Opcode.pong.code, payload))) ∧
    ∀ (opcode : Opcode) (payload key : Bytes), key.length = 4 → payload.length < 2 ^ 63 →
      decodeFrame (frameOf opcode payload key) = some (opcode.code, payload) := by
  refine ⟨fun n => ?_, fun opcode payload key hkey hlength =>
    decodeFrame_frameOf opcode hkey hlength⟩
  have hfresh : Heard frames arriving keys [] texts pings
      { arriving := arriving, newKey := keys } :=
    ⟨⟨[], frames, none, rfl, ⟨[], rfl, rfl⟩, hbytes, rfl, hconverse⟩, rfl, rfl, rfl, rfl⟩
  obtain ⟨results, c', pinged, texts', pings', hpolls, hsent, rfl, rfl, hdone⟩ :=
    polls_heard harrives hunbroken n hfresh
  have hdecoded : c'.sent.map decodeFrame =
      pinged.map fun payload => some (Opcode.pong.code, payload) := by
    rw [hsent, List.nil_append]
    exact pongs_decode hkeys fun payload hpayload =>
      converse_pings hconverse payload (List.mem_append_left _ hpayload)
  refine ⟨results, c', hpolls, List.prefix_append _ _, ?_, fun hn => ?_⟩
  · rw [hdecoded, List.map_append]
    exact List.prefix_append _ _
  · obtain ⟨rfl, rfl⟩ := hdone hn
    rw [hdecoded, List.append_nil, List.append_nil]
    exact ⟨rfl, rfl⟩

theorem decodeText_hi : decodeText [0x68, 0x69] = some "hi" := decodeText_encodeText "hi"

def hi : ServerFrame := ⟨.text, true, [0x68, 0x69], .seven, (by decide : 2 < 126)⟩

def hiFragmented : List ServerFrame :=
  [⟨.text, false, [0x68], .seven, (by decide : 1 < 126)⟩,
    ⟨.ping, true, [7], .sixteen, (by decide : 1 < 2 ^ 16)⟩,
    ⟨.continuation, true, [0x69], .seven, (by decide : 1 < 126)⟩]

/-- A timeout inside a header, and one between two frames. -/
def hiArriving : List Recv :=
  [.chunk [0x01], .timeout, .chunk [0x01, 0x68, 0x89, 126, 0, 1, 7], .timeout,
    .chunk [0x80, 1, 0x69]]

theorem hi_heard :
    (∀ n, ∃ results c', polls n { arriving := hiArriving, newKey := fun _ => [1, 2, 3, 4] } =
        (results, none, c') ∧ results.reduceOption <+: ["hi"] ∧
      c'.sent.map decodeFrame <+: [some (Opcode.pong.code, [7])] ∧
      (["hi"].length + hiArriving.length < n → results.reduceOption = ["hi"] ∧
        c'.sent.map decodeFrame = [some (Opcode.pong.code, [7])])) ∧
    ∀ (opcode : Opcode) (payload key : Bytes), key.length = 4 → payload.length < 2 ^ 63 →
      decodeFrame (frameOf opcode payload key) = some (opcode.code, payload) := by
  have hconverse : converse none hiFragmented = some (["hi"], [[7]]) := by
    simp [converse, hear, hiFragmented, Unfinished.texts, decodeText_hi]
  refine frames_heard hconverse (fun _ => rfl) ?_ rfl ?_
  · intro r hr
    fin_cases hr <;> simp
  · rintro before rest hsplit ⟨earlier, f, later, hframes, hposition, hmore⟩
    -- the timeouts come after one byte and after eight, the parts end at 2, 5, 7 and 10
    have hat : (received before).length = 1 ∨ (received before).length = 8 := by
      rcases before with _ | ⟨r₁, _ | ⟨r₂, _ | ⟨r₃, _ | ⟨r₄, _ | ⟨r₅, before⟩⟩⟩⟩⟩ <;>
        simp [hiArriving] at hsplit
      · exact Or.inl (by simp [← hsplit.1, received, Recv.bytes])
      · exact Or.inr (by simp [← hsplit.1, ← hsplit.2.1, ← hsplit.2.2.1, received, Recv.bytes])
    rcases earlier with _ | ⟨f₁, _ | ⟨f₂, _ | ⟨f₃, earlier⟩⟩⟩ <;>
      simp only [hiFragmented, List.nil_append, List.cons_append, List.cons.injEq,
        List.nil_eq, List.append_eq_nil_iff, reduceCtorEq, and_false] at hframes
    · obtain ⟨rfl, -⟩ := hframes
      simp [encodeAll, ServerFrame.extended, LengthForm.extra, length_pack, ServerFrame.encode,
        ServerFrame.header] at hposition hmore
      omega
    · obtain ⟨rfl, rfl, -⟩ := hframes
      simp [encodeAll, ServerFrame.extended, LengthForm.extra, length_pack, ServerFrame.encode,
        ServerFrame.header] at hposition hmore
      omega
    · obtain ⟨rfl, rfl, rfl, -⟩ := hframes
      simp [encodeAll, ServerFrame.extended, LengthForm.extra, length_pack, ServerFrame.encode,
        ServerFrame.header] at hposition hmore
      omega

/-- **A timeout between a header and its payload loses the frame**, and the next poll raises. -/
theorem timeout_after_header_loses_frame :
    let arriving : List Recv := [.chunk [0x81, 2], .timeout, .chunk [0x68, 0x69]]
    let polled := polls 2 { arriving := arriving, newKey := fun _ => [1, 2, 3, 4] }
    converse none [hi] = some (["hi"], []) ∧ Arrives arriving ∧
      received arriving = encodeAll [hi] ∧
      polled.1 = [none] ∧ polled.2.1 = some (.raised .reservedBit) := by
  refine ⟨?_, ?_, rfl, rfl, rfl⟩
  · simp [converse, hear, hi, Unfinished.texts, decodeText_hi]
  · intro r hr
    fin_cases hr <;> simp

end

end WebSocketConnection

end AlphaLab
