import BeaverMQ.Wire.Chunks
import BeaverMQ.Wire.Sizes

/-!
# BeaverMQ — a message is published and delivered byte for byte

A client sends a message as a `Basic.Publish` method frame, a content header frame and body
frames, and gets one the same way, after a `Basic.Deliver` or a `Basic.Get-Ok`. Inbound, the
handlers put the body together and call `finalize_publish`; outbound, there are three writers: the
body of one frame that is sent from where it is, the loop of `deliver`, and `protocol_send_content`.
-/

namespace BeaverMQ.Amqp

open Bytes (beBytes beVal)
open List Bytes Prog

/-! ## Frames -/

/-- What `bmqp_frame_parse` can represent. -/
structure Frame.Fits (f : Frame) : Prop where
  type : f.type < 256
  channel : f.channel < 65536
  payload : f.payload.length ≤ maxFramePayload

def Frame.bytes (f : Frame) : Bytes := frameWrite f.type f.channel f.payload

theorem length_frameWrite (type channel : Nat) (payload : Bytes) :
    (frameWrite type channel payload).length = payload.length + 8 := by
  simp only [frameWrite, length_append, beBytes_length, length_singleton]
  omega

/-- **A written frame is parsed back**, with anything behind it. -/
theorem frameParse_frameWrite {f : Frame} (hFits : f.Fits) (rest : Bytes) :
    frameParse (f.bytes ++ rest) = .frame f (f.payload.length + 8) := by
  obtain ⟨type, channel, payload⟩ := f
  have hSize : frameHeaderSize = 7 := rfl
  have hType : beVal (beBytes 1 type) = type := beVal_beBytes_of_lt hFits.type
  have hChannel : beVal (beBytes 2 channel) = channel := beVal_beBytes_of_lt hFits.channel
  have hPayload : payload.length ≤ 16 * 1024 * 1024 := hFits.payload
  have hLength : beVal (beBytes 4 payload.length) = payload.length :=
    beVal_beBytes_of_lt (by omega)
  have hLen : (Frame.bytes ⟨type, channel, payload⟩ ++ rest).length =
      payload.length + 8 + rest.length := by
    rw [length_append, Frame.bytes, length_frameWrite]
  -- the head has seven bytes, whatever its fields are
  have hFirst : (Frame.bytes ⟨type, channel, payload⟩ ++ rest).take 1 = beBytes 1 type := rfl
  have hSecond : ((Frame.bytes ⟨type, channel, payload⟩ ++ rest).drop 1).take 2 =
      beBytes 2 channel := rfl
  have hThird : ((Frame.bytes ⟨type, channel, payload⟩ ++ rest).drop 3).take 4 =
      beBytes 4 payload.length := rfl
  have hDrop : (Frame.bytes ⟨type, channel, payload⟩ ++ rest).drop 7 =
      payload ++ [frameEnd] ++ rest := rfl
  rw [append_assoc] at hDrop
  have hEnd : (Frame.bytes ⟨type, channel, payload⟩ ++ rest)[payload.length + 7]? =
      some frameEnd := by
    rw [Nat.add_comm, ← getElem?_drop, hDrop, getElem?_append_right le_rfl, Nat.sub_self]
    rfl
  unfold frameParse
  rw [if_neg (by omega), hThird, hLength]
  dsimp only
  rw [if_neg (Nat.not_lt.mpr hFits.payload), if_neg (by omega),
    show frameHeaderSize + payload.length + 1 - 1 = payload.length + 7 by omega, hEnd,
    if_neg (not_not.mpr rfl), hFirst, hType, hSecond, hChannel, hSize, hDrop, take_left,
    show 7 + payload.length + 1 = payload.length + 8 by omega]

theorem length_le_flatten_bytes (fs : List Frame) :
    fs.length ≤ (fs.map Frame.bytes).flatten.length := by
  induction fs with
  | nil => exact Nat.le_refl _
  | cons f fs ih =>
    rw [map_cons, flatten_cons, length_append, length_cons, Frame.bytes,
      length_frameWrite]
    omega

/-- `bmqp_frame_parse` over a whole buffer, at most `n` times. -/
def parseFrames : Nat → Bytes → Option (List Frame)
  | _, [] => some []
  | 0, _ => none
  | n + 1, b :: bs =>
    match frameParse (b :: bs) with
    | .frame f total => (parseFrames n ((b :: bs).drop total)).map (f :: ·)
    | _ => none

theorem parseFrames_bytes {fs : List Frame} (hFits : ∀ f ∈ fs, f.Fits) {n : Nat}
    (hn : fs.length ≤ n) : parseFrames n (fs.map Frame.bytes).flatten = some fs := by
  induction fs generalizing n with
  | nil => cases n <;> rfl
  | cons f fs ih =>
    obtain ⟨n, rfl⟩ : ∃ k, n = k + 1 := ⟨n - 1, by rw [length_cons] at hn; omega⟩
    have hParse := frameParse_frameWrite (hFits f mem_cons_self) (fs.map Frame.bytes).flatten
    have hDrop : (f.bytes ++ (fs.map Frame.bytes).flatten).drop (f.payload.length + 8) =
        (fs.map Frame.bytes).flatten := drop_left' (length_frameWrite ..)
    have hTail := ih (fun g hg => hFits g (mem_cons_of_mem f hg)) (Nat.le_of_succ_le_succ hn)
    rw [map_cons, flatten_cons]
    cases hBuf : f.bytes ++ (fs.map Frame.bytes).flatten with
    | nil =>
      have hLen := congrArg length hBuf
      rw [length_append, Frame.bytes, length_frameWrite, length_nil] at hLen
      omega
    | cons b bs =>
      rw [hBuf] at hParse hDrop
      simp only [parseFrames, hParse, hDrop, hTail, Option.map_some]

/-! ## The input loop, frame by frame -/

variable (cfg : Cfg) (fuel : Nat)

/-- One round of the loop of `protocol_on_data`. -/
def takeFrame (p : Proto) (f : Frame) : Proc Proto :=
  if p.state = .closing then return p
  else if 0 < p.frameMax ∧ p.frameMax < f.payload.length then protoFatal cfg p
  else dispatchFrame cfg fuel p f

theorem takeFrames_closing {p : Proto} (hClosing : p.state = .closing) (fs : List Frame) :
    fs.foldlM (takeFrame cfg fuel) p = pure p := by
  induction fs with
  | nil => rfl
  | cons f fs ih =>
    rw [foldlM_cons, takeFrame, if_pos hClosing, pure_bind]
    exact ih

theorem frameLoop_closing {st : Stream} (hClosing : st.proto.state = .closing) (n : Nat) :
    frameLoop cfg fuel n st = pure st := by
  cases n with
  | zero => rfl
  | succ n => rw [frameLoop, if_pos hClosing]

theorem frameLoop_of_parse {p : Proto} {buf : Bytes} {f : Frame} {total : Nat} (h : Bool) (n : Nat)
    (hOpen : ¬ p.state = .closing) (hParse : frameParse buf = .frame f total) :
    frameLoop cfg fuel (n + 1) ⟨p, h, buf⟩ =
      if 0 < p.frameMax ∧ p.frameMax < f.payload.length then
        protoFatal cfg p >>= fun q => pure ⟨q, h, buf⟩
      else dispatchFrame cfg fuel p f >>= fun q => frameLoop cfg fuel n ⟨q, h, buf.drop total⟩ := by
  rw [frameLoop]
  simp only [hOpen, if_false, hParse]

/-- **The loop on written frames handles one after the other.** -/
theorem frameLoop_frames {fs : List Frame} (hFits : ∀ f ∈ fs, f.Fits) (p : Proto) {n : Nat}
    (hn : (fs.map Frame.bytes).flatten.length < n) :
    Stream.settled <$> frameLoop cfg fuel n ⟨p, true, (fs.map Frame.bytes).flatten⟩ =
      (fun q => Stream.settled ⟨q, true, []⟩) <$> fs.foldlM (takeFrame cfg fuel) p := by
  induction fs generalizing p n with
  | nil =>
    obtain ⟨n, rfl⟩ : ∃ k, n = k + 1 := ⟨n - 1, by omega⟩
    have hNone : frameParse [] = .incomplete := if_pos (by decide)
    have hStop : frameLoop cfg fuel (n + 1) ⟨p, true, []⟩ = pure ⟨p, true, []⟩ := by
      unfold frameLoop
      rw [hNone]
      exact ite_self _
    rw [map_nil, flatten_nil, hStop, foldlM_nil, map_pure, map_pure]
  | cons f fs ih =>
    obtain ⟨n, rfl⟩ : ∃ k, n = k + 1 := ⟨n - 1, by omega⟩
    rw [map_cons, flatten_cons] at hn ⊢
    by_cases hClosing : p.state = .closing
    · rw [takeFrames_closing cfg fuel hClosing, frameLoop_closing cfg fuel hClosing, map_pure,
        map_pure]
      exact congrArg pure (settled_closing hClosing true _ _)
    have hParse := frameParse_frameWrite (hFits f mem_cons_self) (fs.map Frame.bytes).flatten
    have hDrop : (f.bytes ++ (fs.map Frame.bytes).flatten).drop (f.payload.length + 8) =
        (fs.map Frame.bytes).flatten := drop_left' (length_frameWrite ..)
    rw [frameLoop_of_parse cfg fuel true n hClosing hParse, hDrop, foldlM_cons, takeFrame,
      if_neg hClosing]
    split
    · simp only [map_bind]
      refine protoClose_bind cfg p fun q hq => ?_
      rw [takeFrames_closing cfg fuel hq, map_pure, map_pure]
      exact congrArg pure (settled_closing hq true _ _)
    simp only [map_bind]
    refine bind_congr fun q => ih (fun g hg => hFits g (mem_cons_of_mem f hg)) q ?_
    rw [length_append, Frame.bytes, length_frameWrite] at hn
    omega

/-! ## The arguments of a publish -/

theorem readUint_append {w v : Nat} (hv : v < 256 ^ w) (rest : Bytes) :
    readUint w (beBytes w v ++ rest) = some (v, rest) := by
  have hLen : ¬ (beBytes w v ++ rest).length < w := by simp
  rw [readUint, if_neg hLen, take_left' (beBytes_length w v),
    drop_left' (beBytes_length w v), beVal_beBytes_of_lt hv]

theorem readShortstr_append {s : Bytes} (hLen : s.length ≤ 255) (rest : Bytes) :
    readShortstr (putShortstr s ++ rest) = some (s, rest) := by
  have hShort : ¬ (s ++ rest).length < s.length := by simp
  have hPut : putShortstr s = beBytes 1 s.length ++ s := by
    rw [putShortstr, Nat.min_eq_left hLen, take_of_length_le hLen]
  have hRead : readUint 1 (beBytes 1 s.length ++ (s ++ rest)) = some (s.length, s ++ rest) :=
    readUint_append (by omega) _
  rw [readShortstr, hPut, append_assoc, hRead]
  simp only [Option.bind_eq_bind, Option.bind_some, readBytes, hShort, if_false,
    take_left' rfl, drop_left' rfl]

theorem copyStr_eq {cap : Nat} {s : Bytes} (hLen : s.length < cap) (hNul : 0 ∉ s) :
    copyStr cap s = s := by
  rw [copyStr, take_of_length_le (by omega), cstr_eq hNul]

structure ClientPublish where
  ticket : UInt16 := 0
  exchange : Bytes
  routingKey : Bytes
  bits : UInt8 := 0
  classId : UInt16 := 60
  weight : UInt16 := 0
  props : Bytes
  /-- The payloads of the body frames. -/
  chunks : List Bytes

namespace ClientPublish

variable (x : ClientPublish)

def body : Bytes := x.chunks.flatten

def method : Bytes :=
  beBytes 2 classBasic ++ (beBytes 2 basicPublish ++ (beBytes 2 x.ticket.toNat ++
    (putShortstr x.exchange ++ (putShortstr x.routingKey ++ beBytes 1 x.bits.toNat))))

def header : Bytes :=
  beBytes 2 x.classId.toNat ++ (beBytes 2 x.weight.toNat ++ (beBytes 8 x.body.length ++ x.props))

def frames (ch : Nat) : List Frame :=
  ⟨frameMethod, ch, x.method⟩ :: ⟨frameHeader, ch, x.header⟩ ::
    x.chunks.map fun c => ⟨frameBody, ch, c⟩

/-- What a client may publish: names that fit a short string, of which the exchange name is one
that `name_ok` takes and the routing key a C string, and content within the limits. -/
structure Legal (x : ClientPublish) (maxMessageSize : Nat) : Prop where
  exchange : x.exchange.length ≤ 255 ∧ nameOk x.exchange
  routingKey : x.routingKey.length ≤ 255 ∧ 0 ∉ x.routingKey
  props : x.props ≠ [] ∧ 12 + x.props.length ≤ maxFramePayload
  body : x.body.length ≤ bodyLimit maxMessageSize ∧ x.body.length < 2 ^ 64

variable {x} {maxMessageSize : Nat} (hLegal : x.Legal maxMessageSize)

include hLegal

theorem Legal.readPublishArgs :
    readPublishArgs (beBytes 2 x.ticket.toNat ++ (putShortstr x.exchange ++
      (putShortstr x.routingKey ++ beBytes 1 x.bits.toNat))) =
      some (x.exchange, x.routingKey, x.bits.toNat) := by
  have hBits := readUint_append (w := 1) x.bits.toNat_lt []
  rw [append_nil] at hBits
  simp only [Amqp.readPublishArgs, readUint_append (w := 2) x.ticket.toNat_lt,
    readShortstr_append hLegal.exchange.1, readShortstr_append hLegal.routingKey.1, hBits,
    Option.bind_eq_bind, Option.bind_some, Option.pure_def]

theorem Legal.readContentHeader : readContentHeader x.header = some (x.body.length, x.props) := by
  simp only [Amqp.readContentHeader, header, readUint_append (w := 2) x.classId.toNat_lt,
    readUint_append (w := 2) x.weight.toNat_lt,
    readUint_append (w := 8) (by simpa using hLegal.body.2), Option.bind_eq_bind, Option.bind_some,
    Option.pure_def]

theorem Legal.copyStr_exchange : copyStr 256 x.exchange = x.exchange := by
  refine copyStr_eq (Nat.lt_succ_of_le hLegal.exchange.1) fun hNul => ?_
  have hCtl := all_eq_true.mp hLegal.exchange.2 0 hNul
  revert hCtl
  decide

theorem Legal.copyStr_routingKey : copyStr 256 x.routingKey = x.routingKey :=
  copyStr_eq (Nat.lt_succ_of_le hLegal.routingKey.1) hLegal.routingKey.2

end ClientPublish

/-! ## Assembly -/

/-- The connection and the channel are open, and no publish is under way. -/
structure Proto.Ready (p : Proto) (ch : Nat) : Prop where
  state : p.state ≠ .closing
  connectionOpen : p.connectionOpen = true
  range : ch ≠ 0 ∧ ch ≤ amqpChannelMax
  channel : (p.channelFind ch).isSome = true
  idle : p.pubActive = false

/-- The protocol state with the method and the header of a publish taken in, and `body` so
far. -/
def Proto.assembling (p : Proto) (ch : Nat) (x : ClientPublish) (body : Option Bytes) : Proto :=
  { p with
    pubActive := true, pubHaveHeader := true, pubMandatory := x.bits.toNat.testBit 0
    pubChannel := ch, pubExchange := x.exchange, pubRoutingKey := x.routingKey
    pubBodySize := x.body.length, pubBody := body, pubProps := x.props }

/-- The protocol state between the method and the header of a publish. -/
def Proto.begun (p : Proto) (ch : Nat) (x : ClientPublish) : Proto :=
  { p.assembling ch x none with pubHaveHeader := false, pubBodySize := 0, pubProps := [] }

variable {cfg fuel} {p : Proto} {ch : Nat} {x : ClientPublish}

theorem dispatchFrame_method (hReady : p.Ready ch) (hLegal : x.Legal cfg.maxMessageSize) :
    dispatchFrame cfg fuel p ⟨frameMethod, ch, x.method⟩ =
      pure (p.begun ch x) := by
  have hClass : readUint 2 x.method = some (classBasic, _) := readUint_append (by decide) _
  have hMethod := readUint_append (w := 2) (v := basicPublish) (by decide)
  have hFound : ¬ (ch = 0 ∨ (p.channelFind ch).isNone = true) := by
    simp [hReady.range.1, ← Option.not_isSome, hReady.channel]
  have hName := hLegal.exchange.2
  simp only [dispatchFrame, hReady.idle, Bool.false_eq_true, if_false, if_true, handleMethod, hClass,
    hMethod, handleBasic, withChannel, withOpen, hReady.connectionOpen, hFound, handlePublish,
    hLegal.readPublishArgs, hLegal.copyStr_exchange, hLegal.copyStr_routingKey, hName]
  rfl

theorem dispatchFrame_header (hLegal : x.Legal cfg.maxMessageSize) :
    dispatchFrame cfg fuel (p.begun ch x) ⟨frameHeader, ch, x.header⟩ =
      if x.body.length = 0 then finalizePublish cfg fuel (p.assembling ch x none) []
      else pure (p.assembling ch x none) := by
  have hLimit : ¬ bodyLimit cfg.maxMessageSize < x.body.length := Nat.not_lt.mpr hLegal.body.1
  simp only [dispatchFrame, Proto.begun, Proto.assembling, if_true, Bool.not_false, ne_eq,
    not_true_eq_false, if_false, handleContentHeader, hLegal.readContentHeader, hLimit]

theorem dispatchFrame_body {b : Option Bytes} {c : Bytes}
    (hFits : (b.getD [] ++ c).length ≤ x.body.length) :
    dispatchFrame cfg fuel (p.assembling ch x b) ⟨frameBody, ch, c⟩ =
      if b.isNone && c.length = x.body.length then
        finalizePublish cfg fuel (p.assembling ch x b) c
      else if (b.getD [] ++ c).length = x.body.length then
        finalizePublish cfg fuel (p.assembling ch x (some (b.getD [] ++ c))) (b.getD [] ++ c)
      else pure (p.assembling ch x (some (b.getD [] ++ c))) := by
  have hReceived : (p.assembling ch x b).pubBodyReceived = (b.getD []).length := by
    cases b <;> rfl
  have hNotOver : ¬ x.body.length < (b.getD []).length + c.length := by
    rw [← length_append]
    exact Nat.not_lt.mpr hFits
  simp only [dispatchFrame, handleContentBody, hReceived]
  simp only [Proto.assembling, if_true, Bool.not_true, Bool.false_eq_true, if_false, ne_eq,
    not_true_eq_false, hNotOver]
  rfl

theorem dispatchFrame_more {b : Option Bytes} {c : Bytes}
    (hMore : (b.getD [] ++ c).length < x.body.length) :
    dispatchFrame cfg fuel (p.assembling ch x b) ⟨frameBody, ch, c⟩ =
      pure (p.assembling ch x (some (b.getD [] ++ c))) := by
  have hPart : c.length ≠ x.body.length := by
    rw [length_append] at hMore
    omega
  rw [dispatchFrame_body (Nat.le_of_lt hMore), if_neg (by simp [hPart]), if_neg (Nat.ne_of_lt hMore)]

/-- The body frame that completes the body publishes it, from the read buffer or from where it
was put together. -/
theorem dispatchFrame_last {b : Option Bytes} {c : Bytes} (hLast : b.getD [] ++ c = x.body) :
    ∃ b', dispatchFrame cfg fuel (p.assembling ch x b) ⟨frameBody, ch, c⟩ =
      finalizePublish cfg fuel (p.assembling ch x b') x.body := by
  rw [dispatchFrame_body (Nat.le_of_eq (congrArg length hLast))]
  split
  · rename_i hFast
    have hNone : b = none := by
      rw [Bool.and_eq_true] at hFast
      exact Option.isNone_iff_eq_none.mp hFast.1
    subst hNone
    exact ⟨none, congrArg _ hLast⟩
  · rw [if_pos (congrArg length hLast), hLast]
    exact ⟨some x.body, rfl⟩

theorem ends_finalizePublish (q : Proto) (body : Bytes) :
    (finalizePublish cfg fuel q body).Ends (·.pubActive = false) := by
  have hDone : ∀ q, (publishDone cfg q).Ends (·.pubActive = false) := by
    intro q
    unfold publishDone
    refine ends_bind fun alarm => ?_
    split
    · refine ends_bind fun consumes => ?_
      split
      · exact ends_pure rfl
      · exact ends_bind fun q => ends_bind fun _ => ends_pure rfl
    · exact ends_pure rfl
  unfold finalizePublish
  refine ends_bind fun ok => ?_
  split
  · exact ends_bind fun q => ends_pure rfl
  split
  · refine ends_bind fun ⟨replicated, q⟩ => ?_
    cases replicated with
    | true => exact hDone q
    | false => exact ends_bind fun q => ends_pure rfl
  · exact ends_bind fun q => hDone q

theorem ends_protoFatal (q : Proto) (hIdle : q.pubActive = false) :
    (protoFatal cfg q).Ends (·.pubActive = false) := by
  unfold protoFatal protoClose
  split
  · exact ends_pure hIdle
  · exact ends_bind fun _ => ends_pure hIdle

/-- What is true of the two ways to hand over the frames of a publish: all at once to
`dispatch_frame`, or through the input loop when they keep `frame_max`. -/
structure Handles (cfg : Cfg) (fuel : Nat) (handle : Proto → Frame → Proc Proto) (m : Nat)
    (fs : List Frame) : Prop where
  frame : ∀ q f, q.state ≠ .closing → q.frameMax = m → f ∈ fs →
    handle q f = dispatchFrame cfg fuel q f
  stray : ∀ q ch, q.pubActive = false → handle q ⟨frameBody, ch, []⟩ = protoFatal cfg q

/-- The program is one call of `finalize_publish` with the publish, and after it nothing but the
closing of the connection for empty body frames that came too many. -/
def PublishedOnce (cfg : Cfg) (fuel : Nat) (p : Proto) (ch : Nat) (x : ClientPublish)
    (prog : Proc Proto) : Prop :=
  ∃ b stray, (∀ c ∈ stray, c = []) ∧ stray <:+ x.chunks ∧
    prog = (finalizePublish cfg fuel (p.assembling ch x b) x.body >>= fun q =>
      stray.foldlM (fun q _ => protoFatal cfg q) q)

section Assembly

variable {handle : Proto → Frame → Proc Proto} {m : Nat} {fs : List Frame}
  (hHandle : Handles cfg fuel handle m fs)

include hHandle

theorem stray_frames {cs : List Bytes} (hEmpty : ∀ c ∈ cs, c = []) {q : Proto}
    (hIdle : q.pubActive = false) :
    (cs.map fun c => (⟨frameBody, ch, c⟩ : Frame)).foldlM handle q =
      cs.foldlM (fun q _ => protoFatal cfg q) q := by
  induction cs generalizing q with
  | nil => rfl
  | cons c cs ih =>
    obtain rfl : c = [] := hEmpty c mem_cons_self
    rw [map_cons, foldlM_cons, foldlM_cons, hHandle.stray q ch hIdle]
    exact (ends_protoFatal q hIdle).bind_congr fun q' hq' =>
      ih (fun c hc => hEmpty c (mem_cons_of_mem _ hc)) hq'

theorem publishedOnce_of_finalize {b : Option Bytes} {cs : List Bytes}
    (hEmpty : ∀ c ∈ cs, c = []) (hSuffix : cs <:+ x.chunks) :
    PublishedOnce cfg fuel p ch x
      (finalizePublish cfg fuel (p.assembling ch x b) x.body >>= fun q =>
        (cs.map fun c => (⟨frameBody, ch, c⟩ : Frame)).foldlM handle q) :=
  ⟨b, cs, hEmpty, hSuffix, (ends_finalizePublish _ _).bind_congr fun _ hq =>
    stray_frames hHandle hEmpty hq⟩

/-- The body frames, from any point of the body on: the induction is on the frames that are
left, and the body so far is what they lack. -/
theorem body_frames (hOpen : p.state ≠ .closing) (hMax : p.frameMax = m) {cs : List Bytes}
    (hIn : ∀ c ∈ cs, (⟨frameBody, ch, c⟩ : Frame) ∈ fs) (hSuffix : cs <:+ x.chunks)
    {b : Option Bytes} (hBody : b.getD [] ++ cs.flatten = x.body)
    (hMore : (b.getD []).length < x.body.length) :
    PublishedOnce cfg fuel p ch x
      ((cs.map fun c => (⟨frameBody, ch, c⟩ : Frame)).foldlM handle (p.assembling ch x b)) := by
  induction cs generalizing b with
  | nil =>
    rw [flatten_nil, append_nil] at hBody
    rw [hBody] at hMore
    exact absurd hMore (Nat.lt_irrefl _)
  | cons c cs ih =>
    rw [flatten_cons, ← append_assoc] at hBody
    have hRest : cs <:+ x.chunks := (suffix_cons c cs).trans hSuffix
    have hSum : (b.getD [] ++ c).length + cs.flatten.length = x.body.length := by
      rw [← length_append, hBody]
    rw [map_cons, foldlM_cons,
      hHandle.frame (p.assembling ch x b) _ hOpen hMax (hIn c mem_cons_self)]
    by_cases hLast : (b.getD [] ++ c).length = x.body.length
    · have hNil : cs.flatten = [] := length_eq_zero_iff.mp (by omega)
      rw [hNil, append_nil] at hBody
      obtain ⟨b', hFinal⟩ : ∃ b', dispatchFrame cfg fuel (p.assembling ch x b) ⟨frameBody, ch, c⟩ =
        finalizePublish cfg fuel (p.assembling ch x b') x.body := dispatchFrame_last hBody
      rw [hFinal]
      exact publishedOnce_of_finalize hHandle (flatten_eq_nil_iff.mp hNil) hRest
    have hLess : (b.getD [] ++ c).length < x.body.length := by omega
    rw [dispatchFrame_more hLess, pure_bind]
    exact ih (fun c' hc' => hIn c' (mem_cons_of_mem c hc')) hRest hBody hLess

/-- **The frames of a publish are one call of `finalize_publish`**, with the whole body and the
property section, however the body is split. -/
theorem publish_assembled (hReady : p.Ready ch) (hLegal : x.Legal cfg.maxMessageSize)
    (hMax : p.frameMax = m) (hIn : ∀ f ∈ x.frames ch, f ∈ fs) :
    PublishedOnce cfg fuel p ch x ((x.frames ch).foldlM handle p) := by
  have hBodies : ∀ c ∈ x.chunks, (⟨frameBody, ch, c⟩ : Frame) ∈ fs := fun c hc =>
    hIn _ (mem_cons_of_mem _ (mem_cons_of_mem _ (mem_map.mpr ⟨c, hc, rfl⟩)))
  have hMethod := hHandle.frame p _ hReady.state hMax (hIn _ mem_cons_self)
  have hHeader := hHandle.frame (p.begun ch x) _ hReady.state hMax
    (hIn _ (mem_cons_of_mem _ mem_cons_self))
  rw [ClientPublish.frames, foldlM_cons, hMethod, dispatchFrame_method hReady hLegal, pure_bind,
    foldlM_cons, hHeader, dispatchFrame_header hLegal]
  by_cases hEmpty : x.body.length = 0
  · have hNil : x.body = [] := length_eq_zero_iff.mp hEmpty
    rw [if_pos hEmpty, ← hNil]
    exact publishedOnce_of_finalize hHandle (flatten_eq_nil_iff.mp hNil) (suffix_refl _)
  rw [if_neg hEmpty, pure_bind]
  exact body_frames hHandle hReady.state hMax hBodies (suffix_refl _) rfl
    (Nat.pos_of_ne_zero hEmpty)

end Assembly

theorem handles_dispatchFrame (m : Nat) (fs : List Frame) :
    Handles cfg fuel (dispatchFrame cfg fuel) m fs where
  frame _ _ _ _ _ := rfl
  stray q ch hIdle := by
    simp only [dispatchFrame, hIdle, Bool.false_eq_true, if_false]
    rfl

theorem handles_takeFrame {m : Nat} {fs : List Frame}
    (hMax : m = 0 ∨ ∀ f ∈ fs, f.payload.length ≤ m) :
    Handles cfg fuel (takeFrame cfg fuel) m fs where
  frame q f hOpen hm hf := by
    have hFits : ¬ (0 < q.frameMax ∧ q.frameMax < f.payload.length) := by
      rintro ⟨hPos, hOver⟩
      obtain hZero | hAll := hMax
      · omega
      · have := hAll f hf
        omega
    rw [takeFrame, if_neg hOpen, if_neg hFits]
  stray q ch hIdle := by
    have hFits : ¬ (0 < q.frameMax ∧ q.frameMax < ([] : Bytes).length) := by simp
    by_cases hClosing : q.state = .closing
    · simp only [takeFrame, hClosing, if_true, protoFatal, protoClose]
    · rw [takeFrame, if_neg hClosing, if_neg hFits]
      exact (handles_dispatchFrame 0 []).stray q ch hIdle

/-! ## Deliveries -/

/-- The bytes parse into a `Basic` method frame, a header frame with the length of the body and
the properties, and frames that make up the body. -/
def CarriesMessage (ch method : Nat) (m : Msg) (bytes : Bytes) : Prop :=
  ∃ (args header : Bytes) (bodies : List Bytes), parseFrames bytes.length bytes = some
      (⟨frameMethod, ch, beBytes 2 classBasic ++ beBytes 2 method ++ args⟩ ::
        ⟨frameHeader, ch, header⟩ :: bodies.map fun c => ⟨frameBody, ch, c⟩) ∧
    readContentHeader header = some (m.body.length, m.props) ∧ bodies.flatten = m.body

/-- A message as `finalize_publish` makes it. -/
structure Sound (m : Msg) : Prop where
  props : m.props ≠ [] ∧ 12 + m.props.length ≤ maxFramePayload
  body : m.body.length < 2 ^ 64

theorem readContentHeader_contentHeader {m : Msg} (hSound : Sound m) :
    readContentHeader (contentHeader m) = some (m.body.length, m.props) := by
  have hClass := readUint_append (w := 2) (v := classBasic) (by decide)
  have hWeight := readUint_append (w := 2) (v := 0) (by decide)
  have hSize := readUint_append (w := 8) (v := m.body.length) (by simpa using hSound.body)
  simp only [readContentHeader, contentHeader, if_neg hSound.props.1, append_assoc, hClass,
    hWeight, hSize, Option.bind_eq_bind, Option.bind_some, Option.pure_def]

def bodyChunks (chunk : Nat) : Nat → Bytes → List Bytes
  | 0, _ => []
  | n + 1, body => if body = [] then [] else body.take chunk :: bodyChunks chunk n (body.drop chunk)

theorem bodyFrames_eq (ch chunk n : Nat) (body : Bytes) :
    bodyFrames ch chunk n body =
      ((bodyChunks chunk n body).map fun c => (⟨frameBody, ch, c⟩ : Frame)).map Frame.bytes := by
  induction n generalizing body with
  | zero => rfl
  | succ n ih =>
    rw [bodyFrames, bodyChunks]
    split
    · rfl
    · rw [map_cons, map_cons, ih]
      rfl

theorem flatten_bodyChunks {chunk : Nat} (hPos : 0 < chunk) {n : Nat} {body : Bytes}
    (hn : body.length ≤ n) : (bodyChunks chunk n body).flatten = body := by
  induction n generalizing body with
  | zero => exact (length_eq_zero_iff.mp (Nat.le_zero.mp hn)).symm
  | succ n ih =>
    rw [bodyChunks]
    split
    · rename_i hNil
      exact hNil.symm
    · rw [flatten_cons, ih (by rw [length_drop]; omega), take_append_drop]

theorem length_le_of_mem_bodyChunks {chunk n : Nat} {body c : Bytes}
    (hc : c ∈ bodyChunks chunk n body) : c.length ≤ min chunk body.length := by
  induction n generalizing body with
  | zero => cases hc
  | succ n ih =>
    rw [bodyChunks] at hc
    split at hc
    · cases hc
    obtain rfl | hc := mem_cons.mp hc
    · exact length_take.le
    · have hLe := ih hc
      rw [length_drop] at hLe
      omega

/-- A `Basic` method frame, and a message in a content header frame and body frames of at most
`chunk` bytes. -/
def messageFrames (ch method : Nat) (args : Bytes) (chunk : Nat) (m : Msg) : List Frame :=
  ⟨frameMethod, ch, beBytes 2 classBasic ++ beBytes 2 method ++ args⟩ ::
    ⟨frameHeader, ch, contentHeader m⟩ ::
    (bodyChunks chunk m.body.length m.body).map fun c => ⟨frameBody, ch, c⟩

theorem messageFrames_bytes (ch method : Nat) (args : Bytes) (chunk : Nat) (m : Msg) :
    ((messageFrames ch method args chunk m).map Frame.bytes).flatten =
      methodFrame ch classBasic method args ++ (frameWrite frameHeader ch (contentHeader m) ++
        (bodyFrames ch chunk m.body.length m.body).flatten) := by
  rw [messageFrames, map_cons, map_cons, flatten_cons, flatten_cons,
    bodyFrames_eq]
  rfl

/-- Every frame of a message can be represented. -/
theorem fits_messageFrames {m : Msg} (hSound : Sound m) {ch chunk : Nat} (method : Nat)
    (args : Bytes) (hChannel : ch < 65536) (hArgs : 4 + args.length ≤ maxFramePayload)
    (hChunk : chunk ≤ maxFramePayload) : ∀ f ∈ messageFrames ch method args chunk m, f.Fits := by
  have hHeader : (contentHeader m).length = 12 + m.props.length := by
    simp only [contentHeader, if_neg hSound.props.1, length_append, beBytes_length]
  intro f hf
  simp only [messageFrames, mem_cons, mem_map] at hf
  obtain rfl | rfl | ⟨c, hc, rfl⟩ := hf
  · refine ⟨(by decide : frameMethod < 256), hChannel, ?_⟩
    simp only [length_append, beBytes_length]
    omega
  · exact ⟨(by decide : frameHeader < 256), hChannel, hHeader.trans_le hSound.props.2⟩
  · exact ⟨(by decide : frameBody < 256), hChannel,
      (length_le_of_mem_bodyChunks hc).trans ((min_le_left _ _).trans hChunk)⟩

/-- **What the frames of a message carry.** -/
theorem carriesMessage_of_chunks {m : Msg} (hSound : Sound m) {ch chunk : Nat} (method : Nat)
    (args : Bytes) (hChannel : ch < 65536) (hArgs : 4 + args.length ≤ maxFramePayload)
    (hPos : 0 < chunk) (hChunk : chunk ≤ maxFramePayload) :
    CarriesMessage ch method m ((messageFrames ch method args chunk m).map Frame.bytes).flatten :=
  ⟨args, contentHeader m, bodyChunks chunk m.body.length m.body,
    parseFrames_bytes (fits_messageFrames hSound method args hChannel hArgs hChunk)
      (length_le_flatten_bytes _),
    readContentHeader_contentHeader hSound, flatten_bodyChunks hPos (Nat.le_refl _)⟩

theorem length_putShortstr_le (s : Bytes) : (putShortstr s).length ≤ 256 := by
  simp only [putShortstr, length_append, beBytes_length, length_take]
  omega

theorem tuneFrameMax_le (requested : Nat) : tuneFrameMax requested ≤ 131072 := by
  have hDefault : amqpDefaultFrameMax = 131072 := rfl
  unfold tuneFrameMax
  split <;> omega

theorem bodyFrames_single (ch : Nat) {chunk : Nat} {body : Bytes} (hPos : 0 < body.length)
    (hFits : body.length ≤ chunk) :
    bodyFrames ch chunk body.length body = [frameWrite frameBody ch body] := by
  obtain ⟨k, hk⟩ : ∃ k, body.length = k + 1 := ⟨body.length - 1, by omega⟩
  have hSome : body ≠ [] := ne_nil_of_length_pos hPos
  have hNone : ∀ k, bodyFrames ch chunk k [] = [] := fun k => by cases k <;> rfl
  rw [hk, bodyFrames, if_neg hSome, take_of_length_le hFits, drop_of_length_le hFits,
    hNone]

/-- The largest piece of a body that `deliver` puts into a frame. -/
def deliverChunk (frameMax : Nat) : Nat :=
  let fmax := if frameMax = 0 then 131072 else frameMax
  if frameOverhead < fmax then fmax - frameOverhead else 4096

/-- The same for `protocol_send_content`. -/
def sendChunk (frameMax : Nat) : Nat :=
  (if frameMax < 1024 then amqpDefaultFrameMax else frameMax) - frameOverhead

theorem deliverChunk_bounds (requested : Nat) :
    0 < deliverChunk (tuneFrameMax requested) ∧
      deliverChunk (tuneFrameMax requested) ≤ maxFramePayload := by
  have hLe := tuneFrameMax_le requested
  unfold deliverChunk frameOverhead maxFramePayload
  dsimp only
  split <;> split <;> omega

theorem sendChunk_bounds (requested : Nat) :
    0 < sendChunk (tuneFrameMax requested) ∧
      sendChunk (tuneFrameMax requested) ≤ maxFramePayload := by
  have hLe := tuneFrameMax_le requested
  unfold sendChunk frameOverhead maxFramePayload amqpDefaultFrameMax
  split <;> omega

def deliverArgs (c : Consumer) (tag : Nat) (m : Msg) : Bytes :=
  putShortstr c.tag ++ beBytes 8 tag ++ beBytes 1 0 ++ putShortstr m.exchange ++
    putShortstr m.routingKey

theorem deliverBytes_eq (c : Consumer) (tag frameMax : Nat) (m : Msg) :
    deliverBytes c tag frameMax m = ((messageFrames c.channel basicDeliver (deliverArgs c tag m)
      (deliverChunk frameMax) m).map Frame.bytes).flatten := by
  have hHead : deliverHead c tag m = methodFrame c.channel classBasic basicDeliver
      (deliverArgs c tag m) ++ frameWrite frameHeader c.channel (contentHeader m) := by
    simp only [deliverHead, methodFrame, deliverArgs, append_assoc]
  rw [messageFrames_bytes, ← append_assoc, ← hHead]
  show (if 0 < m.body.length ∧ m.body.length ≤ deliverChunk frameMax then _ else _) = _
  split
  · rename_i hOne
    rw [bodyFrames_single c.channel hOne.1 hOne.2, flatten_singleton]
    simp only [frameWrite, append_assoc]
  · rfl

/-- **What a consumer receives.** -/
theorem deliverBytes_carries {m : Msg} (hSound : Sound m) (c : Consumer)
    (hChannel : c.channel < 65536) (tag requested : Nat) :
    CarriesMessage c.channel basicDeliver m (deliverBytes c tag (tuneFrameMax requested) m) := by
  have hTag := length_putShortstr_le c.tag
  have hExchange := length_putShortstr_le m.exchange
  have hKey := length_putShortstr_le m.routingKey
  obtain ⟨hPos, hChunk⟩ := deliverChunk_bounds requested
  rw [deliverBytes_eq]
  refine carriesMessage_of_chunks hSound basicDeliver _ hChannel ?_ hPos hChunk
  simp only [deliverArgs, maxFramePayload, length_append, beBytes_length]
  omega

def getBytes (ch tag depth frameMax : Nat) (m : Msg) : Bytes :=
  methodFrame ch classBasic basicGetOk (getOkArgs tag depth m) ++ (contentFrames ch frameMax m).flatten

theorem sendContent_bytes (ch method : Nat) (args : Bytes) (frameMax : Nat) (m : Msg) :
    methodFrame ch classBasic method args ++ (contentFrames ch frameMax m).flatten =
      ((messageFrames ch method args (sendChunk frameMax) m).map Frame.bytes).flatten :=
  (messageFrames_bytes ch method args _ m).symm

theorem length_getOkArgs_le (tag depth : Nat) (m : Msg) :
    4 + (getOkArgs tag depth m).length ≤ maxFramePayload := by
  have hExchange := length_putShortstr_le m.exchange
  have hKey := length_putShortstr_le m.routingKey
  simp only [getOkArgs, maxFramePayload, length_append, beBytes_length]
  omega

/-- **What a `Basic.Get` receives.** -/
theorem getBytes_carries {m : Msg} (hSound : Sound m) {ch : Nat} (hChannel : ch < 65536)
    (tag depth requested : Nat) :
    CarriesMessage ch basicGetOk m (getBytes ch tag depth (tuneFrameMax requested) m) := by
  obtain ⟨hPos, hChunk⟩ := sendChunk_bounds requested
  rw [getBytes, sendContent_bytes]
  exact carriesMessage_of_chunks hSound basicGetOk _ hChannel (length_getOkArgs_le ..) hPos hChunk

/-- Each of its frames goes out in a buffer of its own, which is not cut. -/
theorem length_getFrames_lt {m : Msg} (hSound : Sound m) {ch : Nat} (hChannel : ch < 65536)
    (tag depth requested : Nat) :
    ∀ d ∈ methodFrame ch classBasic basicGetOk (getOkArgs tag depth m) ::
      contentFrames ch (tuneFrameMax requested) m, d.length < 2 ^ 32 := by
  have hFrames : methodFrame ch classBasic basicGetOk (getOkArgs tag depth m) ::
      contentFrames ch (tuneFrameMax requested) m =
        (messageFrames ch basicGetOk (getOkArgs tag depth m)
          (sendChunk (tuneFrameMax requested)) m).map Frame.bytes := by
    rw [messageFrames, map_cons, map_cons, ← bodyFrames_eq]
    rfl
  rw [hFrames]
  intro d hd
  obtain ⟨f, hf, rfl⟩ := mem_map.mp hd
  have hFits := fits_messageFrames hSound basicGetOk _ hChannel (length_getOkArgs_le tag depth m)
    (sendChunk_bounds requested).2 f hf
  have hPayload : f.payload.length ≤ maxFramePayload := hFits.payload
  rw [Frame.bytes, length_frameWrite]
  unfold maxFramePayload at hPayload
  omega

/-! ## The bytes that the programs write -/

def Act.written : Act → Bytes
  | .send _ data => uvBuf data
  | _ => []

theorem uvBuf_of_lt {data : Bytes} (h : data.length < 2 ^ 32) : uvBuf data = data := by
  rw [uvBuf, Nat.mod_eq_of_lt h, take_length]

/-- What a program writes to clients when `o` answers its actions. -/
def writtenBytes {α : Type} (o : (a : Act) → a.Ret) (prog : Proc α) : Bytes :=
  (prog.against o).1.flatMap Act.written

section Written

variable {o : (a : Act) → a.Ret} {α : Type}

theorem writtenBytes_act_bind (a : Act) (f : a.Ret → Proc α) :
    writtenBytes o (act a >>= f) = a.written ++ writtenBytes o (f (o a)) := rfl

theorem writtenBytes_ask_bind (q : Query) (f : q.Ret → Proc α) :
    writtenBytes o (ask q >>= f) = writtenBytes o (f (o (.ask q))) := rfl

theorem writtenBytes_deliver (c : Consumer) (m : Msg) :
    writtenBytes o (deliver c m) =
      uvBuf (deliverBytes c (o .nextDeliveryTag) (o (.ask (.frameMax c.conn))) m) := by
  rw [deliver, writtenBytes_act_bind, writtenBytes_ask_bind, writtenBytes_act_bind]
  refine (congrArg (uvBuf _ ++ ·) ?_).trans (append_nil _)
  -- what is noted about the delivery goes to no client
  split
  · cases c.noAck <;> rfl
  · rfl

theorem writtenBytes_sendFrames (hSend : ∀ c data, o (.send c data) = true) (c : Nat)
    (fs : List Bytes) (hSmall : ∀ d ∈ fs, d.length < 2 ^ 32) (f : Unit → Proc α) :
    writtenBytes o (sendFrames c fs >>= f) = fs.flatten ++ writtenBytes o (f ()) := by
  induction fs with
  | nil => rfl
  | cons d fs ih =>
    rw [sendFrames, bind_assoc, writtenBytes_act_bind, hSend, if_pos rfl,
      ih fun d' hd' => hSmall d' (mem_cons_of_mem d hd'), flatten_cons, append_assoc, Act.written,
      uvBuf_of_lt (hSmall d mem_cons_self)]

theorem writtenBytes_notePull (cfg : Cfg) (r : QRef) (cid : Nat) (f : Unit → Proc α) :
    writtenBytes o (dispatcherNotePull cfg r cid >>= f) = writtenBytes o (f ()) := by
  have hMark : writtenBytes o (replicateWatermark cfg r >>= f) = writtenBytes o (f ()) := by
    unfold replicateWatermark
    split
    · rw [bind_assoc, writtenBytes_ask_bind]
      split
      · rw [bind_assoc, writtenBytes_act_bind]
        cases o (.markReplicated r (o (.ask (.consumeWatermark r)))) <;> rfl
      · rfl
    · rfl
  unfold dispatcherNotePull
  split
  · rfl
  · rw [bind_assoc, writtenBytes_act_bind, hMark]
    rfl

theorem writtenBytes_getMessage {m : Msg} {r : QRef} {noAck : Bool}
    (hSend : ∀ c data, o (.send c data) = true)
    (hSmall : ∀ d ∈ methodFrame ch classBasic basicGetOk
        (getOkArgs (o (.nextSeq p.conn)) (o (.ask (.depth r))) m) ::
      contentFrames ch (o (.ask (.frameMax p.conn))) m, d.length < 2 ^ 32) :
    writtenBytes o (getMessage cfg p ch r noAck m) =
      getBytes ch (o (.nextSeq p.conn)) (o (.ask (.depth r))) (o (.ask (.frameMax p.conn))) m := by
  rw [getMessage, writtenBytes_act_bind, writtenBytes_ask_bind, sendMethod, bind_assoc,
    writtenBytes_act_bind, hSend, if_pos rfl, pure_bind, writtenBytes_ask_bind, sendContent,
    writtenBytes_sendFrames hSend _ _ fun d hd => hSmall d (mem_cons_of_mem _ hd), Act.written,
    uvBuf_of_lt (hSmall _ mem_cons_self)]
  have hRest : writtenBytes o (if noAck = true then do
      dispatcherNotePull cfg r m.clusterId
      act .unrefHand
      return p
    else do
      act (.keepGet p.conn ch (o (.nextSeq p.conn)) r)
      return p) = [] := by
    cases noAck with
    | true => rw [if_pos rfl, writtenBytes_notePull]; rfl
    | false => rfl
  rw [hRest, append_nil]
  rfl

end Written

/-! ## End to end -/

def demoProto : Proto :=
  { conn := 1, state := .active, connectionOpen := true, frameMax := 4096, channels := [{ id := 1 }] }

def demoPublish (exchange : Bytes) : ClientPublish :=
  { exchange, routingKey := ascii "key", props := [0, 0], chunks := [[1], [], [2, 3]] }

theorem length_payload_le {buf : Bytes} {f : Frame} {total : Nat}
    (hParse : frameParse buf = .frame f total) : f.payload.length ≤ total := by
  unfold frameParse at hParse
  split at hParse
  · cases hParse
  dsimp only at hParse
  split at hParse
  · cases hParse
  split at hParse
  · cases hParse
  split at hParse
  · cases hParse
  cases hParse
  rw [length_take]
  omega

theorem length_payloads_le {n : Nat} {bytes : Bytes} {fs : List Frame}
    (hParse : parseFrames n bytes = some fs) :
    (fs.map fun f => f.payload.length).sum ≤ bytes.length := by
  induction n generalizing bytes fs with
  | zero =>
    cases bytes with
    | nil =>
      cases hParse
      exact Nat.le_refl _
    | cons b bs => cases hParse
  | succ n ih =>
    cases bytes with
    | nil =>
      cases hParse
      exact Nat.le_refl _
    | cons b bs =>
      simp only [parseFrames] at hParse
      split at hParse
      · rename_i f total hFrame
        obtain ⟨rest, hRest, rfl⟩ := Option.map_eq_some_iff.mp hParse
        have hPayload := length_payload_le hFrame
        have hTotal := (frameParse_total hFrame).2
        have hTail := ih hRest
        rw [length_drop] at hTail
        rw [map_cons, sum_cons]
        omega
      · cases hParse

/-- What carries a message is at least as long as its body. -/
theorem CarriesMessage.length_le {ch method : Nat} {m : Msg} {bytes : Bytes}
    (h : CarriesMessage ch method m bytes) : m.body.length ≤ bytes.length := by
  obtain ⟨args, header, bodies, hParse, -, hBody⟩ := h
  have hSum := length_payloads_le hParse
  rw [map_cons, map_cons, sum_cons, sum_cons, map_map] at hSum
  rw [← hBody, length_flatten]
  have hSame : (bodies.map ((fun f : Frame => f.payload.length) ∘ fun c => ⟨frameBody, ch, c⟩)).sum =
      (bodies.map length).sum := rfl
  omega

theorem length_bodyFrames_one (ch : Nat) {n : Nat} {body : Bytes} (hn : body.length ≤ n) :
    (bodyFrames ch 1 n body).flatten.length = 9 * body.length := by
  induction n generalizing body with
  | zero => rw [length_eq_zero_iff.mp (Nat.le_zero.mp hn)]; rfl
  | succ n ih =>
    cases body with
    | nil => rfl
    | cons b bs =>
      rw [bodyFrames, if_neg (cons_ne_nil b bs), flatten_cons, length_append, length_frameWrite,
        drop_one, tail_cons, ih (by rw [length_cons] at hn; omega), length_take, length_cons]
      omega

def longBody : Msg := ⟨[], [], [0, 0], replicate 500000000 0, 0, 0⟩

def slowConsumer : Consumer :=
  { id := 1, conn := 1, channel := 1, tag := [], queue := ⟨[], [113], 0, 0⟩, noAck := true
    prefetch := 0 }

/-- A server whose only client asked for a `frame_max` of nine. -/
def slowServer : Server :=
  (Act.run {} (.worker 0) (.setFrameMax 1 (tuneFrameMax 9)) (({} : Server).accept (.worker 0)).2).2

end BeaverMQ.Amqp
