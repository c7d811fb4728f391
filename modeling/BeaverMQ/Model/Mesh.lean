import BeaverMQ.Model.Cluster
import BeaverMQ.Model.Crypto

/-!
# BeaverMQ — mesh sockets and the bytes that arrive on them

The read side of the peer mesh of one node: the frame header, the HELLO payload, the
payloads of every frame type as `cl_dispatch` takes them out of the buffer, short ones
included, and the two read callbacks `on_peer_read` and `on_inbound_read`.

`Mesh.trace` records each frame that reached `cl_dispatch` with the node before and after
it and the frames that came in before it on the same socket; the code never reads it.
-/

namespace BeaverMQ

open Bytes

/-! ## Frame header -/

/-- `cluster_frame_type_t`. -/
inductive FrameType
  | hello
  | helloAck
  | prevote
  | prevoteResp
  | voteReq
  | voteResp
  | append
  | appendResp
  | forward
  | status
  | snapBegin
  | snapChunk
  | routeHint
  | snapEnd
  | snapAck
  | forwardAck
  deriving DecidableEq

def FrameType.code : FrameType → Nat
  | .hello => 1
  | .helloAck => 2
  | .prevote => 10
  | .prevoteResp => 11
  | .voteReq => 12
  | .voteResp => 13
  | .append => 14
  | .appendResp => 15
  | .forward => 16
  | .status => 17
  | .snapBegin => 18
  | .snapChunk => 19
  | .routeHint => 20
  | .snapEnd => 21
  | .snapAck => 22
  | .forwardAck => 23

/-- The frame type of a type byte; `none` is the `default:` branch of `cl_dispatch`. -/
def FrameType.ofCode : Nat → Option FrameType
  | 1 => some .hello
  | 2 => some .helloAck
  | 10 => some .prevote
  | 11 => some .prevoteResp
  | 12 => some .voteReq
  | 13 => some .voteResp
  | 14 => some .append
  | 15 => some .appendResp
  | 16 => some .forward
  | 17 => some .status
  | 18 => some .snapBegin
  | 19 => some .snapChunk
  | 20 => some .routeHint
  | 21 => some .snapEnd
  | 22 => some .snapAck
  | 23 => some .forwardAck
  | _ => none

/-- `cluster_frame_hdr_t` without magic and version, which the parser checks. -/
structure FrameHdr where
  type : Nat
  flags : Nat
  term : Nat
  length : Nat
  crc32 : Nat
  deriving DecidableEq

def clusterHdrSize : Nat := 16
def clusterFrameMagic : Nat := 0xB7
def clusterProtoVersion : Nat := 1

def byteAt (p : Bytes) (i : Nat) : Nat := (p.getD i 0).toNat

/-- `get_be32(p + i)`. -/
def be32At (p : Bytes) (i : Nat) : Nat := beVal ((p.drop i).take 4)

/-- `get_be64(p + i)`. -/
def be64At (p : Bytes) (i : Nat) : Nat := beVal ((p.drop i).take 8)

def clusterHdrPack (h : FrameHdr) : Bytes :=
  beBytes 1 clusterFrameMagic ++ beBytes 1 clusterProtoVersion ++
    beBytes 1 h.type ++ beBytes 1 h.flags ++ beBytes 4 h.term ++
    beBytes 4 h.length ++ beBytes 4 h.crc32

/-- `cluster_hdr_parse`; `none` is `-1`. -/
def clusterHdrParse (p : Bytes) : Option FrameHdr :=
  if p.length < clusterHdrSize then none
  else if byteAt p 0 ≠ clusterFrameMagic ∨ byteAt p 1 ≠ clusterProtoVersion then none
  else if clusterMaxPayload < be32At p 8 then none
  else some { type := byteAt p 2, flags := byteAt p 3, term := be32At p 4
              length := be32At p 8, crc32 := be32At p 12 }

/-- A complete frame as it came off a socket. -/
structure RawFrame where
  hdr : FrameHdr
  payload : Bytes
  deriving DecidableEq

/-- The bytes `cl_send` writes for a frame. -/
def RawFrame.encode (type flags term : Nat) (payload : Bytes) : Bytes :=
  clusterHdrPack { type, flags, term, length := payload.length
                   crc32 := clusterCrc32 payload } ++ payload

def RawFrame.isHello (f : RawFrame) : Bool :=
  f.hdr.type = FrameType.hello.code || f.hdr.type = FrameType.helloAck.code

/-! ## HELLO payload -/

def clHelloLen : Nat := 4 + 8 + 32

/-- `hello_payload_build`, with the nonce drawn from the node's generator. -/
def helloPayloadBuild (secret : Bytes) (selfId type nonce : Nat) : Bytes :=
  let claim := beBytes 4 selfId ++ beBytes 8 nonce
  claim ++ cryptoHmacSha256 secret (beBytes 1 type ++ claim)

/-- `hello_payload_verify`: the claimed node id, `none` for `-1`. -/
def helloPayloadVerify (secret : Bytes) (type : Nat) (payload : Bytes) : Option Nat :=
  if payload.length ≠ clHelloLen then none
  else if cryptoHmacSha256 secret (beBytes 1 type ++ payload.take 12) ≠
      (payload.drop 12).take 32 then none
  else some (be32At payload 0)

/-! ## Payloads -/

/-- The entry loop of `CL_FRAME_APPEND`; the flag is false when the frame is too short for
its count. -/
def rdEntries : Nat → Bytes → List Entry × Bool
  | 0, _ => ([], true)
  | k + 1, q =>
    if q.length < 24 then ([], false)
    else
      let len := be32At q 20
      let e : Entry := { term := be64At q 0, op := be32At q 16
                         payload := (q.drop 24).take len }
      if (q.drop 24).length < len then ([], false)
      else
        let (es, ok) := rdEntries k (q.drop (24 + len))
        (e :: es, ok)

/-- The op loop of `CL_FRAME_FORWARD`. -/
def rdOps : Nat → Bytes → List Proposal
  | 0, _ => []
  | k + 1, q =>
    if q.length < 16 then []
    else
      let len := be32At q 4
      if (q.drop 16).length < len then []
      else { op := be32At q 0, data := (q.drop 16).take len, seq := be64At q 8 } ::
        rdOps k (q.drop (16 + len))

/-- The records of a topology blob; `k` bounds the loop. -/
def rdTopo : Nat → Bytes → List TopoRec
  | 0, _ => []
  | k + 1, q =>
    if q.length < 8 then []
    else
      let len := be32At q 4
      if (q.drop 8).length < len then []
      else { op := be32At q 0, data := (q.drop 8).take len } :: rdTopo k (q.drop (8 + len))

/-- The parser of `snap_apply_record`. -/
def rdSnapRec (q : Bytes) : Option (SnapRec × Bytes) := do
  let (vhost, q) ← rdStr q
  let (queue, q) ← rdStr q
  let (exchange, q) ← rdStr q
  let (routingKey, q) ← rdStr q
  let (props, q) ← rdBlock q
  let (body, q) ← rdBlock q
  if q.length < 8 then none
  else some ({ vhost, queue, exchange, routingKey, props, body, clusterId := be64At q 0 }
            , q.drop 8)

/-- The record loop of `CL_FRAME_SNAP_CHUNK`: up to the first malformed record. -/
def rdSnapRecs : Nat → Bytes → List SnapRec
  | 0, _ => []
  | k + 1, q =>
    match rdSnapRec q with
    | none => []
    | some (r, q) => r :: rdSnapRecs k q

/-! ## Frames -/

variable (n : Node)

/-- The log position a vote request claims. A payload too short for one counts as
up to date, which is what the node's own position does. -/
def claimedLast (payload : Bytes) : Nat × Nat :=
  if payload.length < 20 then (n.log.lastIndex, logTermAt n.log n.log.lastIndex)
  else (be64At payload 4, be64At payload 12)

/-- The first byte of a payload is there and is not zero. -/
def flagged (payload : Bytes) : Bool := byteAt payload 0 ≠ 0

/-- `CL_FRAME_APPEND` with fewer entries than it announces: what is there is appended, and
the frame is rejected. -/
def onAppendTorn (p term prevIndex prevTerm : Nat) (congested : Bool)
    (entries : List Entry) : Node :=
  let n := (observeTerm n term).1
  if term < n.term then sendAppendResp n p false n.log.lastIndex
  else
    let n := { n with role := .follower, leaderId := some p, inPrevote := false
                      lastLeaderContact := n.now, throttle := congested }
    if n.log.lastIndex < prevIndex then sendAppendResp n p false n.log.lastIndex
    else if 0 < prevIndex ∧ logTermAt n.log prevIndex ≠ prevTerm then
      sendAppendResp n p false (prevIndex - 1)
    else
      let n := entries.foldl logAppend (logTruncateFrom n (prevIndex + 1))
      sendAppendResp n p false n.log.lastIndex

/-- `CL_FRAME_APPEND`. A payload shorter than its fixed part is answered like one whose
`prevIndex` is behind the end of the log. -/
def onAppendBytes (p : Nat) (h : FrameHdr) (payload : Bytes) : Node :=
  let congested : Bool := h.flags % 2 = 1
  if payload.length < clAppendFixed then
    onAppend n p h.term (n.log.lastIndex + 1) 0 0 0 congested []
  else
    let prev := be64At payload 4
    let prevTerm := be64At payload 12
    match rdEntries (be32At payload 36) (payload.drop 40) with
    | (es, true) =>
      onAppend n p h.term prev prevTerm (be64At payload 20) (be64At payload 28) congested es
    | (es, false) => onAppendTorn n p h.term prev prevTerm congested es

/-- `CL_FRAME_APPEND_RESP`; the durable index is optional. -/
def onAppendRespBytes (p : Nat) (h : FrameHdr) (payload : Bytes) : Node :=
  if payload.length < 9 then (observeTerm n h.term).1
  else
    let durable := if payload.length < 17 then (n.peer p).durableIndex else be64At payload 9
    onAppendResp n p h.term (flagged payload) (be64At payload 1) durable

/-- `CL_FRAME_SNAP_BEGIN`. A payload too short for its fields still names a leader. -/
def onSnapBeginBytes (p : Nat) (h : FrameHdr) (payload : Bytes) : Node :=
  let tlen := be32At payload 16
  if payload.length < 20 ∨ payload.length - 20 < tlen then
    if h.term < n.term then n
    else
      let n := (observeTerm n h.term).1
      { n with role := .follower, leaderId := some p, lastLeaderContact := n.now }
  else
    onSnapBegin n p h.term (be64At payload 0) (be64At payload 8)
      (rdTopo tlen ((payload.drop 20).take tlen))

/-- `CL_FRAME_SNAP_CHUNK`. -/
def onSnapChunkBytes (p : Nat) (h : FrameHdr) (payload : Bytes) : Node :=
  if payload.length < 4 then
    if h.term < n.term then n else { n with lastLeaderContact := n.now }
  else onSnapChunk n p h.term (rdSnapRecs (be32At payload 0) (payload.drop 4))

/-- `cl_dispatch` of a frame other than HELLO and HELLO_ACK, on the bytes. -/
def dispatchBytes (p : Nat) (type : FrameType) (h : FrameHdr) (payload : Bytes) : Node :=
  match type with
  | .prevote =>
    let (li, lt) := claimedLast n payload
    onPrevote n p h.term li lt
  | .prevoteResp => onPrevoteResp n h.term (flagged payload)
  | .voteReq =>
    let (li, lt) := claimedLast n payload
    onVoteReq n p h.term li lt
  | .voteResp => onVoteResp n h.term (flagged payload)
  | .append => onAppendBytes n p h payload
  | .appendResp => onAppendRespBytes n p h payload
  | .forward =>
    if payload.length < 4 then n else onForward n p (rdOps (be32At payload 0) (payload.drop 4))
  | .forwardAck =>
    if payload.length < 8 then n
    else onForwardAck n (be64At payload 0) (if payload.length < 16 then 0 else be64At payload 8)
  | .snapBegin => onSnapBeginBytes n p h payload
  | .snapChunk => onSnapChunkBytes n p h payload
  | .snapEnd => onSnapEnd n p h.term
  | .snapAck =>
    if payload.length < 9 then (observeTerm n h.term).1
    else onSnapAck n p h.term (flagged payload) (be64At payload 1)
  | .status => (observeTerm n h.term).1
  | .hello | .helloAck | .routeHint => n

/-- `cl_dispatch` of one complete frame from the link of peer `p`; the flag says that the
frame made it drop the link. -/
def dispatchRaw (secret : Bytes) (n : Node) (p : Nat) (f : RawFrame) : Node × Bool :=
  match FrameType.ofCode f.hdr.type with
  | some .hello =>
    if helloPayloadVerify secret FrameType.hello.code f.payload = some p then
      (onHello n p, false)
    else (dropPeerLink n p, true)
  | some .helloAck =>
    if helloPayloadVerify secret FrameType.helloAck.code f.payload = some p then
      (onHelloAck n p, false)
    else (dropPeerLink n p, true)
  | some type => (dispatchBytes n p type f.hdr f.payload, false)
  | none => (n, false)

/-! ## Reading frames off a link -/

/-- What is at the front of a receive buffer. -/
inductive Next
  | wait
  | bad
  | frame (f : RawFrame) (rest : Bytes)

/-- One turn of `cl_drain_frames` up to the dispatch. -/
def nextFrame (buf : Bytes) : Next :=
  if buf.length < clusterHdrSize then .wait
  else
    match clusterHdrParse buf with
    | none => .bad
    | some h =>
      if buf.length < clusterHdrSize + h.length then .wait
      else
        let payload := (buf.drop clusterHdrSize).take h.length
        if clusterCrc32 payload ≠ h.crc32 then .bad
        else .frame ⟨h, payload⟩ (buf.drop (clusterHdrSize + h.length))

/-- A frame that reached `cl_dispatch` on the link of peer `slot`. -/
structure Dispatched where
  slot : Nat
  frame : RawFrame
  earlier : List RawFrame
  before : Node
  after : Node

/-- The variables of a read: `live` is false once the link is dropped. -/
structure Reader where
  node : Node
  buf : Bytes
  seen : List RawFrame
  trace : List Dispatched
  live : Bool := true

/-- The loop of `cl_drain_frames`; every turn takes at least a header. After a frame that
drops the link the source goes on in the freed buffer; the model stops there. -/
def clDrainFrames (secret : Bytes) (p : Nat) : Nat → Reader → Reader
  | 0, r => r
  | k + 1, r =>
    match nextFrame r.buf with
    | .wait => r
    | .bad => { r with node := dropPeerLink r.node p, live := false }
    | .frame f rest =>
      let (n, dropped) := dispatchRaw secret r.node p f
      let d : Dispatched :=
        { slot := p, frame := f, earlier := r.seen, before := r.node, after := n }
      let r' : Reader := { node := n, buf := rest, seen := r.seen ++ [f]
                           trace := r.trace ++ [d], live := !dropped }
      if dropped then r' else clDrainFrames secret p k r'

/-! ## Sockets -/

/-- What a socket is to the node: one it dialed, one it accepted and has no HELLO from
yet, one bound to a peer by its HELLO, or a closed one. -/
inductive SockState
  | dialed (p : Nat)
  | waiting
  | bound (p : Nat)
  | closed
  deriving DecidableEq

/-- A socket with its reassembly buffer; `seen` are the complete frames that came in. -/
structure Sock where
  state : SockState
  rbuf : Bytes := []
  seen : List RawFrame := []

/-- A node with its mesh sockets. -/
structure Mesh where
  secret : Bytes
  node : Node
  socks : List Sock := []
  trace : List Dispatched := []

def Mesh.setSock (m : Mesh) (s : Nat) (sock : Sock) : Mesh :=
  { m with socks := m.socks.set s sock }

/-- A socket after `uv_close`. -/
def Sock.close (sock : Sock) : Sock := { sock with state := .closed, rbuf := [] }

/-- `on_peer_read` of `bs`, on the link of peer `p`. -/
def onPeerRead (m : Mesh) (s p : Nat) (sock : Sock) (bs : Bytes) : Mesh :=
  let buf := sock.rbuf ++ bs
  let r := clDrainFrames m.secret p buf.length
    { node := m.node, buf, seen := sock.seen, trace := m.trace }
  let m := { m with trace := r.trace }
  if r.live then
    { m.setSock s { sock with rbuf := r.buf, seen := r.seen } with
      node := (leaderFlush r.node).settle }
  else
    { m.setSock s { sock with seen := r.seen }.close with node := r.node.settle }

/-- The end of `on_inbound_read`: an older link of the peer is closed, and the socket
becomes its link. What follows the HELLO in the buffer waits for the next read. -/
def bindInbound (m : Mesh) (s p : Nat) (sock : Sock) (f : RawFrame) (rest : Bytes) : Mesh :=
  let socks := m.socks.map fun old => if old.state = .bound p then old.close else old
  { m with
    socks := socks.set s { state := .bound p, rbuf := rest, seen := sock.seen ++ [f] }
    node := (onHello m.node p).settle }

/-- `on_inbound_read` of `bs`. -/
def onInboundRead (m : Mesh) (s : Nat) (sock : Sock) (bs : Bytes) : Mesh :=
  let buf := sock.rbuf ++ bs
  let keep := m.setSock s { sock with rbuf := buf }
  let reject := m.setSock s sock.close
  if buf.length < clusterHdrSize then keep
  else
    match clusterHdrParse buf with
    | none => reject
    | some h =>
      if h.type ≠ FrameType.hello.code then reject
      else if buf.length < clusterHdrSize + h.length then keep
      else
        let payload := (buf.drop clusterHdrSize).take h.length
        if clusterCrc32 payload ≠ h.crc32 then reject
        else
          match helloPayloadVerify m.secret FrameType.hello.code payload with
          | none => reject
          | some p =>
            -- a peer this node dials itself may not come in from outside
            if p ∉ m.node.cfg.peerIds ∨ m.node.cfg.selfId < p then reject
            else bindInbound m s p sock ⟨h, payload⟩ (buf.drop (clusterHdrSize + h.length))

inductive MeshEvent
  /-- A dialed socket is connected. -/
  | dial (p : Nat)
  | accept
  | recv (s : Nat) (bs : Bytes)
  /-- The socket ends or fails. -/
  | eof (s : Nat)
  /-- A callback of the node that is not a read. -/
  | own (cb : Callback)

def Mesh.step (m : Mesh) : MeshEvent → Option Mesh
  | .dial p =>
    if (Callback.connect p).enabled m.node then
      some { m with node := (onConnect m.node p).settle
                    socks := m.socks ++ [{ state := .dialed p }] }
    else none
  | .accept => some { m with socks := m.socks ++ [{ state := .waiting }] }
  | .recv s bs =>
    match m.socks[s]? with
    | none => none
    | some sock =>
      match sock.state with
      | .dialed p => some (onPeerRead m s p sock bs)
      | .bound p => some (onPeerRead m s p sock bs)
      | .waiting => some (onInboundRead m s sock bs)
      | .closed => none
  | .eof s =>
    match m.socks[s]? with
    | none => none
    | some sock =>
      match sock.state with
      | .dialed p | .bound p =>
        some { m.setSock s sock.close with node := dropPeerLink m.node p }
      | .waiting => some (m.setSock s sock.close)
      | .closed => none
  | .own cb =>
    match cb with
    | .connect _ | .linkDown _ => none
    | cb => if cb.enabled m.node then some { m with node := (cb.run m.node).settle } else none

/-! ## The receive buffer of a peer link

`cl_drain_frames` walks over the receive buffer with an offset while the dispatch of a frame may
free that very buffer. Here is the loop on the C variables; a read outside of the buffer is a
fault. `tests` records `off` and `*len` at each loop test, `dispatched` the frames that reached
`cl_dispatch`; the code reads neither. -/

/-- The variables of `cl_drain_frames`; no `rbuf` is `NULL`. -/
structure DrainVars where
  node : Node
  rbuf : Option Bytes
  len : Nat
  off : Nat := 0
  tests : List (Nat × Nat) := []
  dispatched : List RawFrame := []

inductive DrainEnd
  | ok
  | error
  /-- A read outside of the buffer. -/
  | fault

/-- The end of `cl_drain_frames`: the consumed front is moved away. -/
def drainCompact (v : DrainVars) : DrainVars × DrainEnd :=
  if v.off = 0 then (v, .ok)
  else
    match v.rbuf with
    | none => (v, .fault)
    | some b => ({ v with rbuf := some (b.drop v.off), len := sub64 v.len v.off }, .ok)

/-- The loop of `cl_drain_frames`, `k` turns at most. `drop_peer_link` frees the buffer. -/
def drainLoop (secret : Bytes) (p : Nat) : Nat → DrainVars → DrainVars × DrainEnd
  | 0, v => (v, .fault)
  | k + 1, v =>
    let v := { v with tests := v.tests ++ [(v.off, v.len)] }
    if sub64 v.len v.off < clusterHdrSize then drainCompact v
    else
      match v.rbuf with
      | none => (v, .fault)
      | some b =>
        if b.length < v.off + clusterHdrSize then (v, .fault)
        else
          match clusterHdrParse (b.drop v.off) with
          | none => (v, .error)
          | some h =>
            let need := clusterHdrSize + h.length
            if sub64 v.len v.off < need then drainCompact v
            else if b.length < v.off + need then (v, .fault)
            else
              let payload := ((b.drop v.off).drop clusterHdrSize).take h.length
              if clusterCrc32 payload ≠ h.crc32 then (v, .error)
              else
                let f : RawFrame := ⟨h, payload⟩
                let (n, dropped) := dispatchRaw secret v.node p f
                drainLoop secret p k
                  { v with node := n
                           rbuf := if dropped then none else some b
                           len := if dropped then 0 else v.len
                           off := v.off + need
                           dispatched := v.dispatched ++ [f] }

/-- A link that is read by `on_peer_read`. `broken` says that a fault was reached. -/
structure PeerLink where
  node : Node
  rbuf : Bytes
  reading : Bool := true
  broken : Bool := false
  tests : List (Nat × Nat) := []
  dispatched : List RawFrame := []

/-- `on_peer_read` of `bs`; a link that is closed is not read. -/
def PeerLink.read (secret : Bytes) (p : Nat) (l : PeerLink) (bs : Bytes) : PeerLink :=
  if l.reading = false ∨ bs = [] then l
  else
    let buf := l.rbuf ++ bs
    let (v, ret) := drainLoop secret p (buf.length + 2)
      { node := l.node, rbuf := some buf, len := buf.length, tests := l.tests
        dispatched := l.dispatched }
    match ret with
    | .ok => { node := (leaderFlush v.node).settle, rbuf := v.rbuf.getD [], tests := v.tests
               dispatched := v.dispatched }
    | .error => { node := (dropPeerLink v.node p).settle, rbuf := [], reading := false
                  tests := v.tests, dispatched := v.dispatched }
    | .fault => { node := v.node, rbuf := [], reading := false, broken := true
                  tests := v.tests, dispatched := v.dispatched }

end BeaverMQ
