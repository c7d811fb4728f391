import BeaverMQ.Wire.Content

/-!
# BeaverMQ — frames and their size

A frame is written in one go, or its head is written with a length of 0 that is filled in once
the payload is there. Both leave the same bytes.

A message goes out in a method frame, a content header frame and body frames. Only the last are
cut to the negotiated size, and `protocol_send_content` has a size of its own for a client that
asked for less than 1024 bytes.
-/

namespace BeaverMQ.Amqp

open Bytes (beBytes)
open List Bytes

/-! ## The output buffer -/

/-- `bmqp_buf_t` up to its capacity. -/
structure OutBuf where
  data : Bytes := []
  error : Bool := false
  deriving DecidableEq

namespace OutBuf

/-- The `bmqp_buf_put_*`: bytes behind those that are there. -/
def put (b : OutBuf) (bytes : Bytes) : OutBuf :=
  if b.error then b else { b with data := b.data ++ bytes }

def frameWrite (b : OutBuf) (f : Frame) : OutBuf :=
  ((((b.put (beBytes 1 f.type)).put (beBytes 2 f.channel)).put
    (beBytes 4 f.payload.length)).put f.payload).put [frameEnd]

/-- `bmqp_frame_begin`, with the place where the payload starts. -/
def frameBegin (b : OutBuf) (type channel : Nat) : OutBuf × Nat :=
  let b := ((b.put (beBytes 1 type)).put (beBytes 2 channel)).put (beBytes 4 0)
  (b, b.data.length)

def frameFinish (b : OutBuf) (payloadStart : Nat) : OutBuf :=
  if b.error then b
  else
    let payloadLen := b.data.length - payloadStart
    if 0xFFFFFFFF < payloadLen then { b with error := true }
    else
      let lp := payloadStart - 4
      let data := b.data.take lp ++ beBytes 4 payloadLen ++ b.data.drop (lp + 4)
      ({ b with data } : OutBuf).put [frameEnd]

def build (b : OutBuf) (type channel : Nat) (pieces : List Bytes) : OutBuf :=
  let (b, payloadStart) := b.frameBegin type channel
  (pieces.foldl put b).frameFinish payloadStart

theorem put_mk (data bytes : Bytes) : (⟨data, false⟩ : OutBuf).put bytes = ⟨data ++ bytes, false⟩ :=
  rfl

theorem put_pieces (pieces : List Bytes) (data : Bytes) :
    pieces.foldl put ⟨data, false⟩ = ⟨data ++ pieces.flatten, false⟩ := by
  induction pieces generalizing data with
  | nil => simp
  | cons piece pieces ih => rw [foldl_cons, put_mk, ih, append_assoc, flatten_cons]

theorem frameWrite_eq (data : Bytes) (f : Frame) :
    frameWrite ⟨data, false⟩ f = ⟨data ++ f.bytes, false⟩ := by
  simp only [frameWrite, put_mk, Frame.bytes, Amqp.frameWrite, append_assoc]

/-- **The frame that is built is the one that is written.** -/
theorem build_eq (data : Bytes) (type channel : Nat) {pieces : List Bytes}
    (hFits : pieces.flatten.length ≤ maxFramePayload) :
    build ⟨data, false⟩ type channel pieces =
      frameWrite ⟨data, false⟩ ⟨type, channel, pieces.flatten⟩ := by
  unfold maxFramePayload at hFits
  -- what stands in front of the length, the length, and the payload behind it
  set front := data ++ beBytes 1 type ++ beBytes 2 channel
  have hBuilt : build ⟨data, false⟩ type channel pieces =
      frameFinish ⟨front ++ (beBytes 4 0 ++ pieces.flatten), false⟩ (front.length + 4) := by
    simp only [build, frameBegin, put_mk, put_pieces, append_assoc, length_append,
      beBytes_length, front]
  have hLen : (front ++ (beBytes 4 0 ++ pieces.flatten)).length - (front.length + 4) =
      pieces.flatten.length := by
    simp only [length_append, beBytes_length]
    omega
  have hBehind : (front ++ (beBytes 4 0 ++ pieces.flatten)).drop (front.length + 4) =
      pieces.flatten := by
    rw [← append_assoc]
    exact drop_left' (by simp)
  rw [hBuilt, frameFinish, frameWrite_eq]
  simp only [Bool.false_eq_true, if_false, hLen]
  rw [if_neg (by omega), Nat.add_sub_cancel, take_left, hBehind, put_mk]
  simp only [Frame.bytes, Amqp.frameWrite, append_assoc, front]

end OutBuf

/-! ## The parser -/

theorem frameParse_part {f : Frame} (hFits : f.Fits) {part : Bytes} (hPart : part <+: f.bytes)
    (hLess : part ≠ f.bytes) : frameParse part = .incomplete := by
  obtain ⟨more, hMore⟩ := hPart
  by_contra hFull
  -- the parser would have to take more than it was given
  have hWhole := frameParse_frameWrite hFits []
  rw [append_nil, ← hMore, frameParse_append part more hFull] at hWhole
  have hLe := (frameParse_total hWhole).2
  have hLen := congrArg length hMore
  rw [length_append, Frame.bytes, length_frameWrite] at hLen
  have hNil : more = [] := length_eq_zero_iff.mp (by omega)
  exact hLess (by rw [← hMore, hNil, append_nil])

/-- **The frame codec.** The parser gets back the frame that was written and takes its bytes,
waits for the rest of a frame, and stays inside of its input; frames that are built one after the
other in a buffer are the same frames written. -/
theorem frame_codec :
    (∀ f : Frame, f.Fits →
      (∀ r, frameParse ((OutBuf.frameWrite {} f).data ++ r) =
        .frame f (OutBuf.frameWrite {} f).data.length) ∧
      ∀ part, part <+: (OutBuf.frameWrite {} f).data → part ≠ (OutBuf.frameWrite {} f).data →
        frameParse part = .incomplete) ∧
    (∀ (data : Bytes) (fs : List (Nat × Nat × List Bytes)),
      (∀ f ∈ fs, f.2.2.flatten.length ≤ maxFramePayload) →
        fs.foldl (fun b f => OutBuf.build b f.1 f.2.1 f.2.2) ⟨data, false⟩ =
          fs.foldl (fun b f => OutBuf.frameWrite b ⟨f.1, f.2.1, f.2.2.flatten⟩) ⟨data, false⟩) ∧
    ∀ buf f total, frameParse buf = .frame f total → total ≤ buf.length := by
  refine ⟨fun f hFits => ?_, fun data fs hFits => ?_, fun buf f total h => (frameParse_total h).2⟩
  · rw [show (OutBuf.frameWrite {} f).data = f.bytes from
      congrArg OutBuf.data (OutBuf.frameWrite_eq [] f)]
    refine ⟨fun r => ?_, fun part => frameParse_part hFits⟩
    rw [frameParse_frameWrite hFits r, Frame.bytes, length_frameWrite]
  · induction fs generalizing data with
    | nil => rfl
    | cons f fs ih =>
      rw [foldl_cons, foldl_cons, OutBuf.build_eq data _ _ (hFits f mem_cons_self),
        OutBuf.frameWrite_eq]
      exact ih _ fun g hg => hFits g (mem_cons_of_mem f hg)

/-- A method frame and half of it, and two frames in one buffer. -/
theorem frame_codec_method :
    frameParse ((OutBuf.frameWrite {} ⟨1, 0, [0, 10, 0, 11]⟩).data ++ [8]) =
      .frame ⟨1, 0, [0, 10, 0, 11]⟩ 12 ∧ frameParse [1, 0, 0, 0, 0, 0] = .incomplete ∧
    (OutBuf.build {} 1 0 [[0, 10], [0, 11]]).build 8 0 [] =
      (OutBuf.frameWrite {} ⟨1, 0, [0, 10, 0, 11]⟩).frameWrite ⟨8, 0, []⟩ := by
  have hFits : (⟨1, 0, [0, 10, 0, 11]⟩ : Frame).Fits := ⟨by decide, by decide, by decide⟩
  exact ⟨(frame_codec.1 _ hFits).1 [8],
    (frame_codec.1 _ hFits).2 _ (by decide) (by decide),
    frame_codec.2.1 [] [(1, 0, [[0, 10], [0, 11]]), (8, 0, [])] (by decide)⟩

/-! ## The negotiated size -/

/-- What `bmqp_buf_put_shortstr` writes. -/
def shortstrSize (s : Bytes) : Nat := 1 + min s.length 255

theorem length_putShortstr (s : Bytes) : (putShortstr s).length = shortstrSize s := by
  simp only [putShortstr, shortstrSize, length_append, beBytes_length,
    length_take, Nat.min_comm]

def headerSize (m : Msg) : Nat := 20 + if m.props = [] then 2 else m.props.length

theorem length_contentHeader (m : Msg) : (contentHeader m).length + 8 = headerSize m := by
  unfold contentHeader headerSize
  split
  · simp only [length_append, beBytes_length]
  · simp only [length_append, beBytes_length]
    omega

theorem bodyChunks_fit {chunk max : Nat} {body : Bytes} :
    (∀ c ∈ bodyChunks chunk body.length body, c.length + 8 ≤ max) ↔
      body = [] ∨ min chunk body.length + 8 ≤ max := by
  constructor
  · intro hAll
    cases body with
    | nil => exact .inl rfl
    | cons x body =>
      have hFirst := hAll ((x :: body).take chunk) (by simp [bodyChunks])
      rw [length_take] at hFirst
      exact .inr hFirst
  · rintro (rfl | hFirst) c hc
    · cases hc
    · have hLe := length_le_of_mem_bodyChunks hc
      omega

theorem messageFrames_fit {ch method chunk max : Nat} {args : Bytes} {m : Msg} :
    (∀ f ∈ messageFrames ch method args chunk m, f.bytes.length ≤ max) ↔
      12 + args.length ≤ max ∧ headerSize m ≤ max ∧
        (m.body = [] ∨ min chunk m.body.length + 8 ≤ max) := by
  have hMethod : (beBytes 2 classBasic ++ beBytes 2 method ++ args).length + 8 =
      12 + args.length := by
    simp only [length_append, beBytes_length]
    omega
  simp only [messageFrames, forall_mem_cons, forall_mem_map, Frame.bytes,
    length_frameWrite, bodyChunks_fit, hMethod, length_contentHeader]

def returnArgs (m : Msg) : Bytes :=
  beBytes 2 312 ++ putShortstr (ascii "NO_ROUTE") ++ putShortstr m.exchange ++
    putShortstr m.routingKey

def returnBytes (ch frameMax : Nat) (m : Msg) : Bytes :=
  methodFrame ch classBasic basicReturn (returnArgs m) ++ (contentFrames ch frameMax m).flatten

theorem sendChunk_fit {max : Nat} {m : Msg} (hMax : 8 ≤ max) (hDefault : max ≤ 131072) :
    m.body = [] ∨ min (sendChunk max) m.body.length + 8 ≤ max ↔
      1024 ≤ max ∨ m.body.length + 8 ≤ max := by
  rw [← length_eq_zero_iff]
  unfold sendChunk frameOverhead amqpDefaultFrameMax
  split <;> omega

/-- **Which frames have the negotiated size**: with any `frame_max` that a client can ask for, the
frames of a message fit it exactly if its method frame and its content header frame do and, for
`Basic.Get` and `Basic.Return` with less than 1024 bytes, the whole body fits one frame. -/
theorem frame_size_iff (requested : Nat) (m : Msg) : let max := tuneFrameMax requested
    (∀ (c : Consumer) (tag : Nat),
      let fs := messageFrames c.channel basicDeliver (deliverArgs c tag m) (deliverChunk max) m
      deliverBytes c tag max m = (fs.map Frame.bytes).flatten ∧
        ((∀ f ∈ fs, f.bytes.length ≤ max) ↔ headerSize m ≤ max ∧
          21 + shortstrSize c.tag + shortstrSize m.exchange + shortstrSize m.routingKey ≤ max)) ∧
    (∀ ch tag depth : Nat,
      let fs := messageFrames ch basicGetOk (getOkArgs tag depth m) (sendChunk max) m
      getBytes ch tag depth max m = (fs.map Frame.bytes).flatten ∧
        ((∀ f ∈ fs, f.bytes.length ≤ max) ↔ headerSize m ≤ max ∧
          25 + shortstrSize m.exchange + shortstrSize m.routingKey ≤ max ∧
          (1024 ≤ max ∨ m.body.length + 8 ≤ max))) ∧
    ∀ ch : Nat,
      let fs := messageFrames ch basicReturn (returnArgs m) (sendChunk max) m
      returnBytes ch max m = (fs.map Frame.bytes).flatten ∧
        ((∀ f ∈ fs, f.bytes.length ≤ max) ↔ headerSize m ≤ max ∧
          23 + shortstrSize m.exchange + shortstrSize m.routingKey ≤ max ∧
          (1024 ≤ max ∨ m.body.length + 8 ≤ max)) := by
  intro max
  have hDefault : max ≤ 131072 := tuneFrameMax_le requested
  have hHeader : 20 ≤ headerSize m := Nat.le_add_right _ _
  refine ⟨fun c tag => ⟨deliverBytes_eq c tag max m, ?_⟩,
    fun ch tag depth => ⟨sendContent_bytes _ _ _ _ m, ?_⟩,
    fun ch => ⟨sendContent_bytes _ _ _ _ m, ?_⟩⟩
  all_goals
    rw [messageFrames_fit]
    simp only [deliverArgs, getOkArgs, returnArgs, length_append, beBytes_length,
      length_putShortstr]
  · -- a frame that holds the method leaves room for a piece of the body
    unfold deliverChunk frameOverhead
    dsimp only
    constructor
    · omega
    · intro h
      split <;> split <;> omega
  all_goals
    have hText : shortstrSize (ascii "NO_ROUTE") = 9 := by decide +kernel
    exact and_left_comm.trans (and_congr_right fun hFit =>
      and_congr (by omega) (sendChunk_fit (by omega) hDefault))

/-- A client that asked for frames of 512 bytes gets one of 608 from `Basic.Get`, and properties
of 600 bytes in a frame of 620. -/
theorem frame_size_exceeded :
    (∃ (m : Msg) (fs : List Frame), m.props = [0, 0] ∧
      getBytes 1 1 0 (tuneFrameMax 512) m = (fs.map Frame.bytes).flatten ∧
        ∃ f ∈ fs, tuneFrameMax 512 < f.bytes.length) ∧
    ∃ (m : Msg) (c : Consumer) (fs : List Frame), m.body = [] ∧
      deliverBytes c 1 (tuneFrameMax 512) m = (fs.map Frame.bytes).flatten ∧
        ∃ f ∈ fs, tuneFrameMax 512 < f.bytes.length := by
  let m : Msg := { exchange := [], routingKey := [113], props := [0, 0], body := [] }
  let c : Consumer := { id := 0, conn := 1, channel := 1, tag := [], queue := ⟨[], [113], 0, 0⟩
                        noAck := true, prefetch := 0 }
  refine ⟨⟨{ m with body := replicate 600 0 }, _, rfl, sendContent_bytes _ _ _ _ _, ?_⟩,
    { m with props := replicate 600 0 }, c, _, rfl, deliverBytes_eq _ _ _ _, ?_⟩
  · decide +kernel
  · decide +kernel

end BeaverMQ.Amqp
