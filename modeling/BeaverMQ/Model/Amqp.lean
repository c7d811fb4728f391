import BeaverMQ.Model.Publish

/-!
# BeaverMQ — AMQP bytes (`frame.c`, the argument codecs of `protocol.c`)

The frame envelope, the field writers and readers, and the argument lists of the methods the
broker takes. A reader of `frame.c` has a sticky error flag that a method looks at once it
has read all its arguments, so reading is a chain in `Option`, and `none` is a set flag.
Strings are copied into fixed buffers and used as C strings from then on.
-/

namespace BeaverMQ.Amqp

open Bytes

def ascii (s : String) : Bytes := s.toList.map fun c => UInt8.ofNat c.toNat

/-- `%llu`. -/
def decimal (n : Nat) : Bytes := (Nat.toDigits 10 n).map fun c => UInt8.ofNat c.toNat

/-- `copy_str` into a buffer of `cap` bytes, read back as a C string. -/
def copyStr (cap : Nat) (src : Bytes) : Bytes := cstr (src.take (cap - 1))

/-- `name_ok`: no ASCII control character and no DEL. -/
def nameOk (s : Bytes) : Bool := s.all fun c => 0x20 ≤ c && c ≠ 0x7f

/-! ## Frames -/

def frameHeaderSize : Nat := 7
def frameOverhead : Nat := 8
def frameEnd : UInt8 := 0xCE
def maxFramePayload : Nat := 16 * 1024 * 1024

def frameMethod : Nat := 1
def frameHeader : Nat := 2
def frameBody : Nat := 3
def frameHeartbeat : Nat := 8

/-- The 8-byte greeting of AMQP 0-9-1. -/
def protocolHeader : Bytes := [0x41, 0x4d, 0x51, 0x50, 0, 0, 9, 1]

/-- A frame as `bmqp_frame_parse` hands it out. -/
structure Frame where
  type : Nat
  channel : Nat
  payload : Bytes
  deriving DecidableEq

/-- The three outcomes of `bmqp_frame_parse`: 0, -1, or a frame and the bytes it took. -/
inductive Parsed
  | incomplete
  | bad
  | frame (f : Frame) (total : Nat)
  deriving DecidableEq

/-- `bmqp_frame_parse`. -/
def frameParse (buf : Bytes) : Parsed :=
  if buf.length < frameHeaderSize then .incomplete
  else
    let len := beVal ((buf.drop 3).take 4)
    if maxFramePayload < len then .bad
    else
      let total := frameHeaderSize + len + 1
      if buf.length < total then .incomplete
      else if buf[total - 1]? ≠ some frameEnd then .bad
      else .frame ⟨beVal (buf.take 1), beVal ((buf.drop 1).take 2),
        (buf.drop frameHeaderSize).take len⟩ total

/-- `bmqp_frame_write`; also what `bmqp_frame_begin`, the field writers and
`bmqp_frame_finish` leave in the buffer. -/
def frameWrite (type channel : Nat) (payload : Bytes) : Bytes :=
  beBytes 1 type ++ beBytes 2 channel ++ beBytes 4 payload.length ++ payload ++
    [frameEnd]

/-- What `uv_buf_init` makes of a buffer: its length is an `unsigned int`. -/
def uvBuf (data : Bytes) : Bytes := data.take (data.length % 2 ^ 32)

/-- `bmqp_buf_put_shortstr`. -/
def putShortstr (s : Bytes) : Bytes := beBytes 1 (min s.length 255) ++ s.take 255

/-- `bmqp_buf_put_longstr`. -/
def putLongstr (s : Bytes) : Bytes := beBytes 4 s.length ++ s

/-! ## Readers -/

/-- `bmqp_read_u8`, `_u16`, `_u32` and `_u64`. -/
def readUint (w : Nat) (r : Bytes) : Option (Nat × Bytes) :=
  if r.length < w then none else some (beVal (r.take w), r.drop w)

def readBytes (n : Nat) (r : Bytes) : Option (Bytes × Bytes) :=
  if r.length < n then none else some (r.take n, r.drop n)

/-- `bmqp_read_shortstr`. -/
def readShortstr (r : Bytes) : Option (Bytes × Bytes) := do
  let (n, r) ← readUint 1 r
  readBytes n r

/-- `bmqp_read_longstr`. -/
def readLongstr (r : Bytes) : Option (Bytes × Bytes) := do
  let (n, r) ← readUint 4 r
  readBytes n r

/-! ## Queue arguments -/

/-- `queue_args_t`; `none` is an unset `has_` flag. -/
structure QueueArgs where
  overflow : Option Bytes := none
  maxLength : Option Nat := none
  maxBytes : Option Nat := none
  dlx : Option Bytes := none
  dlxRkey : Bytes := []
  deriving DecidableEq

/-- `read_field_value`: the integer value of a field and the rest of the table. -/
def readFieldValue (type : Nat) (r : Bytes) : Option (Nat × Bytes) :=
  if type ∈ [0x74, 0x62, 0x42] then readUint 1 r                       -- t b B
  else if type ∈ [0x73, 0x75, 0x55] then readUint 2 r                  -- s u U
  else if type ∈ [0x49, 0x69, 0x66] then readUint 4 r                  -- I i f
  else if type ∈ [0x6c, 0x4c, 0x54, 0x64] then readUint 8 r            -- l L T d
  else if type = 0x44 then (readBytes 5 r).map fun (_, r) => (0, r)    -- D
  else if type = 0x56 then some (0, r)                                 -- V
  else if type ∈ [0x53, 0x78, 0x41, 0x46] then                         -- S x A F
    (readLongstr r).map fun (_, r) => (0, r)
  else none

def queueArgStep (out : QueueArgs) (r : Bytes) : Option (QueueArgs × Bytes) := do
  let (name, r) ← readShortstr r
  let (type, r) ← readUint 1 r
  if type = 0x53 ∧ name = ascii "x-overflow" then
    let (v, r) ← readLongstr r
    return ({ out with overflow := some (copyStr 32 v) }, r)
  else if type = 0x53 ∧ name = ascii "x-dead-letter-exchange" then
    let (v, r) ← readLongstr r
    return ({ out with dlx := some (copyStr 256 v) }, r)
  else if type = 0x53 ∧ name = ascii "x-dead-letter-routing-key" then
    let (v, r) ← readLongstr r
    return ({ out with dlxRkey := copyStr 256 v }, r)
  else
    let (v, r) ← readFieldValue type r
    if name = ascii "x-max-length" then return ({ out with maxLength := some v }, r)
    else if name = ascii "x-max-length-bytes" then return ({ out with maxBytes := some v }, r)
    else return (out, r)

/-- The loop of `parse_queue_args`; every field takes at least two bytes. -/
def queueArgLoop : Nat → QueueArgs → Bytes → QueueArgs
  | 0, out, _ => out
  | n + 1, out, r =>
    if r = [] then out
    else match queueArgStep out r with
      | none => out
      | some (out, r) => queueArgLoop n out r

def parseQueueArgs (tbl : Bytes) : QueueArgs := queueArgLoop tbl.length {} tbl

/-- The overflow policy: anything but `drop-head` is `reject-publish`. -/
def QueueArgs.policy (a : QueueArgs) : Overflow :=
  if a.overflow = some (ascii "drop-head") then .dropHead else .rejectPublish

/-! ## Method arguments -/

variable (r : Bytes)

def readStartOk : Option Bytes := do
  let (_, r) ← readLongstr r
  let (_, r) ← readShortstr r
  let (resp, r) ← readLongstr r
  let (_, _) ← readShortstr r
  return resp

/-- The split of a SASL PLAIN response into user and password. -/
def saslPlain (resp : Bytes) : Bytes × Bytes :=
  -- skip the authzid and its NUL
  let rest := (resp.dropWhile (· ≠ 0)).drop 1
  let pass := (rest.dropWhile (· ≠ 0)).drop 1
  (copyStr 128 (rest.takeWhile (· ≠ 0)), copyStr 256 pass)

def readTuneOk : Option (Nat × Nat × Nat) := do
  let (channelMax, r) ← readUint 2 r
  let (frameMax, r) ← readUint 4 r
  let (heartbeat, _) ← readUint 2 r
  return (channelMax, frameMax, heartbeat)

def readOpen : Option Bytes := do
  let (vhost, r) ← readShortstr r
  let (_, r) ← readShortstr r
  let (_, _) ← readUint 1 r
  return vhost

def readExchangeDeclare : Option (Bytes × Bytes × Nat) := do
  let (_, r) ← readUint 2 r
  let (ex, r) ← readShortstr r
  let (ty, r) ← readShortstr r
  let (bits, r) ← readUint 1 r
  let (_, _) ← readLongstr r
  return (ex, ty, bits)

def readQueueDeclare : Option (Bytes × Nat × Bytes) := do
  let (_, r) ← readUint 2 r
  let (q, r) ← readShortstr r
  let (bits, r) ← readUint 1 r
  let (args, _) ← readLongstr r
  return (q, bits, args)

def readQueueBind : Option (Bytes × Bytes × Bytes × Nat) := do
  let (_, r) ← readUint 2 r
  let (q, r) ← readShortstr r
  let (e, r) ← readShortstr r
  let (k, r) ← readShortstr r
  let (noWait, r) ← readUint 1 r
  let (_, _) ← readLongstr r
  return (q, e, k, noWait)

def readQueueDelete : Option (Bytes × Nat) := do
  let (_, r) ← readUint 2 r
  let (q, r) ← readShortstr r
  let (bits, _) ← readUint 1 r
  return (q, bits)

def readQos : Option Nat := do
  let (_, r) ← readUint 4 r
  let (prefetch, r) ← readUint 2 r
  let (_, _) ← readUint 1 r
  return prefetch

def readPublishArgs : Option (Bytes × Bytes × Nat) := do
  let (_, r) ← readUint 2 r
  let (e, r) ← readShortstr r
  let (k, r) ← readShortstr r
  let (bits, _) ← readUint 1 r
  return (e, k, bits)

def readConsume : Option (Bytes × Bytes × Nat) := do
  let (_, r) ← readUint 2 r
  let (q, r) ← readShortstr r
  let (t, r) ← readShortstr r
  let (bits, r) ← readUint 1 r
  let (_, _) ← readLongstr r
  return (q, t, bits)

def readCancel : Option (Bytes × Nat) := do
  let (t, r) ← readShortstr r
  let (noWait, _) ← readUint 1 r
  return (t, noWait)

def readGet : Option (Bytes × Nat) := do
  let (_, r) ← readUint 2 r
  let (q, r) ← readShortstr r
  let (noAck, _) ← readUint 1 r
  return (q, noAck)

def readSettle : Option (Nat × Nat) := do
  let (tag, r) ← readUint 8 r
  let (bits, _) ← readUint 1 r
  return (tag, bits)

/-- The content header of `handle_content_header`: body size and property section. -/
def readContentHeader : Option (Nat × Bytes) := do
  let (_, r) ← readUint 2 r
  let (_, r) ← readUint 2 r
  let (size, r) ← readUint 8 r
  return (size, r)

/-- `exchange_type_from_name`; `none` is -1. -/
def exchangeTypeFromName (name : Bytes) : Option Nat :=
  if name = ascii "fanout" then some exchangeFanout
  else if name = ascii "topic" then some exchangeTopic
  else if name = ascii "direct" then some exchangeDirect
  else none

end BeaverMQ.Amqp
