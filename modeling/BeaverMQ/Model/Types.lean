import BeaverMQ.Lib.Bytes

/-!
# BeaverMQ — data types of the replicated log and of the peer protocol

The records that `cluster.c` keeps in memory, writes to disk and sends between
nodes: log entries, proposals, snapshot records and frames. Frames are typed;
the header term is the 32-bit value the sender packs, so a sender's term passes
through `u32` on the way to the wire. Counters and indexes are `Nat`; the two
places where the source's unsigned arithmetic can wrap go through `sub64`.
-/

namespace BeaverMQ

abbrev Bytes := List UInt8

instance : LawfulBEq Bytes := inferInstance

/-- Truncation to `uint32_t`. -/
def u32 (v : Nat) : Nat := v % 2 ^ 32

/-- `a - b` on `uint64_t`. -/
def sub64 (a b : Nat) : Nat := if b ≤ a then a - b else a + 2 ^ 64 - b

/-- `cluster_role_t`. -/
inductive Role
  | follower
  | candidate
  | leader
  deriving DecidableEq

/-- `cluster_link_state_t`. `CL_LINK_CONNECTING` is not kept apart from `down`:
the source only ever tests for `CL_LINK_UP`. -/
inductive LinkState
  | down
  | handshaking
  | up
  deriving DecidableEq

/-- `cluster_op_t`. -/
inductive ClOp
  | noop
  | publish
  | declareQueue
  | declareExch
  | bind
  | ack
  | addVhost
  | delVhost
  | addUser
  | delUser
  | setPerm
  | clearPerm
  | deleteQueue
  deriving DecidableEq

def ClOp.code : ClOp → Nat
  | .noop => 0
  | .publish => 1
  | .declareQueue => 2
  | .declareExch => 3
  | .bind => 4
  | .ack => 5
  | .addVhost => 6
  | .delVhost => 7
  | .addUser => 8
  | .delUser => 9
  | .setPerm => 10
  | .clearPerm => 11
  | .deleteQueue => 12

/-- The op a `uint32_t` op type stands for; `none` is the `default:` branch of
`apply_op`. -/
def ClOp.ofCode : Nat → Option ClOp
  | 0 => some .noop
  | 1 => some .publish
  | 2 => some .declareQueue
  | 3 => some .declareExch
  | 4 => some .bind
  | 5 => some .ack
  | 6 => some .addVhost
  | 7 => some .delVhost
  | 8 => some .addUser
  | 9 => some .delUser
  | 10 => some .setPerm
  | 11 => some .clearPerm
  | 12 => some .deleteQueue
  | _ => none

@[simp] theorem ClOp.ofCode_code (op : ClOp) : ClOp.ofCode op.code = some op := by
  cases op <;> rfl

/-- `cluster_log_entry_t` without its index, which is its position in the log.
The payload is the bytes as appended: `compact_payloads` frees the heap copy of
bodies that are durable everywhere, after which nothing reads them. -/
structure Entry where
  term : Nat
  op : Nat
  payload : Bytes
  deriving DecidableEq

def Entry.len (e : Entry) : Nat := e.payload.length

/-- One record of `n->topo`: op type and payload. -/
structure TopoRec where
  op : Nat
  data : Bytes
  deriving DecidableEq

/-- `cl_proposal_t`. -/
structure Proposal where
  op : Nat
  data : Bytes
  seq : Nat
  deriving DecidableEq

/-- `cl_fwd_ack_t`: an appended proposal whose commit has to be reported. -/
structure FwdAck where
  logIndex : Nat
  origin : Nat
  seq : Nat
  deriving DecidableEq

/-- One live-message record, as dumped into a snapshot or a CHUNK frame. -/
structure SnapRec where
  vhost : Bytes
  queue : Bytes
  exchange : Bytes
  routingKey : Bytes
  props : Bytes
  body : Bytes
  clusterId : Nat
  deriving DecidableEq

/-- A frame between two peers: the header term followed by the payload fields. -/
inductive Frame
  | hello (term : Nat)
  | helloAck (term : Nat)
  | prevote (term lastIndex lastTerm : Nat)
  | prevoteResp (term : Nat) (granted : Bool)
  | voteReq (term lastIndex lastTerm : Nat)
  | voteResp (term : Nat) (granted : Bool)
  | append (term prevIndex prevTerm leaderCommit compactIndex : Nat)
      (congested : Bool) (entries : List Entry)
  | appendResp (term : Nat) (success : Bool) (hint durable : Nat)
  | forward (term : Nat) (ops : List Proposal)
  | forwardAck (term seq index : Nat)
  | snapBegin (term base baseTerm : Nat) (topo : List TopoRec)
  | snapChunk (term : Nat) (recs : List SnapRec)
  | snapEnd (term : Nat)
  | snapAck (term : Nat) (final : Bool) (base : Nat)
  | status (term : Nat)
  deriving DecidableEq

def snapRecordSize (r : SnapRec) : Nat :=
  2 + r.vhost.length + 2 + r.queue.length + 2 + r.exchange.length +
    2 + r.routingKey.length + 4 + r.props.length + 4 + r.body.length + 8

/-- The payload length in the frame header. The status view is not modelled and stays far
below every limit. -/
def Frame.length : Frame → Nat
  | .hello _ | .helloAck _ => 44
  | .prevote _ _ _ | .voteReq _ _ _ => 20
  | .prevoteResp _ _ | .voteResp _ _ => 1
  | .append _ _ _ _ _ _ es => 40 + (es.map (fun e => 24 + e.len)).sum
  | .appendResp _ _ _ _ => 17
  | .forward _ ops => 4 + (ops.map (fun pr => 16 + pr.data.length)).sum
  | .forwardAck _ _ _ => 16
  | .snapBegin _ _ _ topo => 20 + (topo.map (fun r => 8 + r.data.length)).sum
  | .snapChunk _ recs => 4 + (recs.map snapRecordSize).sum
  | .snapEnd _ => 0
  | .snapAck _ _ _ => 9
  | .status _ => 0

end BeaverMQ
