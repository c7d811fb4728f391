import BeaverMQ.Model.Apply
import BeaverMQ.Model.Wal

/-!
# BeaverMQ — a node and its persistence functions

The state of one `cluster_node_t` and the functions of `cluster.c` that keep its log,
its files and its snapshot. A function that reaches outside the node's memory
appends to `out`, in program order, what it does there. `io` says which storage
calls currently succeed.

The timers, the health gate, the status view and the metrics are not modelled: a timer is an
event that may fire at any moment.
-/

namespace BeaverMQ

def clusterMaxNodes : Nat := 5

/-- The configuration the model depends on; `fallocChunk` is `CL_FALLOC_CHUNK`, which nothing
proved here depends on. -/
structure Config where
  selfId : Nat
  nnodes : Nat
  durableCommit : Bool := true
  electionMinMs : Nat := 1000
  fallocChunk : Nat := 64 * 1024 * 1024
  deriving DecidableEq

/-- `n->quorum`. -/
def Config.quorum (c : Config) : Nat := c.nnodes / 2 + 1

def Config.peerIds (c : Config) : List Nat := (List.range c.nnodes).filter (· ≠ c.selfId)

/-- Which storage calls succeed. -/
structure Io where
  metaOk : Bool := true
  writeOk : Bool := true
  fsyncOk : Bool := true
  truncateOk : Bool := true
  fallocOk : Bool := true
  snapshotOk : Bool := true
  deriving DecidableEq

/-- The cursor of a state transfer to one peer (`peer->snap`). `queues` are the queues not
finished yet (key and generation), `msgs` what is left of the first of them. -/
structure SnapCursor where
  active : Bool := false
  base : Nat := 0
  baseTerm : Nat := 0
  queues : List (Bytes × Nat) := []
  msgs : List SnapRec := []
  unackedChunks : Nat := 0
  endSent : Bool := false
  deriving DecidableEq

/-- `cluster_peer_t`. -/
structure Peer where
  linkState : LinkState := .down
  nextIndex : Nat := 0
  matchIndex : Nat := 0
  durableIndex : Nat := 0
  inflight : Nat := 0
  snap : SnapCursor := {}
  deriving DecidableEq

/-- `cluster_proposal_status_t`. -/
inductive ProposalStatus
  | pending
  | committed
  | rejected
  deriving DecidableEq

def clStatusTableSize : Nat := 4096

/-- Proposal bookkeeping: the inbox, the retransmission buffer of a follower, the
pending acks and per-origin progress of a leader, and the status ring. -/
structure Forwarding where
  inbox : List Proposal := []
  seqNext : Nat := 0
  statusSeq : Nat → Nat := fun _ => 0
  statusVal : Nat → ProposalStatus := fun _ => .pending
  pending : List Proposal := []
  pendingTick : Nat := 0
  committedSeq : Nat → Nat := fun _ => 0
  committedIndex : Nat → Nat := fun _ => 0
  ackedSeq : Nat := 0
  ackedIndex : Nat := 0
  markedSeq : Nat := 0
  ackPending : List FwdAck := []

/-- `cluster_node_t`. `applied` is the state behind the log; `history` records each entry
`apply_committed` applied, with its index, and is never read by the code. -/
structure Node where
  cfg : Config
  io : Io := {}
  now : Nat := 0
  term : Nat := 0
  votedFor : Option Nat := none
  role : Role := .follower
  leaderId : Option Nat := none
  votesGranted : Nat := 0
  prevotesGranted : Nat := 0
  inPrevote : Bool := false
  lastLeaderContact : Nat := 0
  log : Log := {}
  persist : Persist := {}
  logDirty : Bool := false
  throttle : Bool := false
  leaderCommitSeen : Nat := 0
  storageFailed : Bool := false
  statusTick : Nat := 0
  compactTick : Nat := 0
  compactHint : Nat := 0
  peer : Nat → Peer := fun _ => {}
  fwd : Forwarding := {}
  applied : Applied := {}
  history : List (Nat × Entry) := []
  out : List Effect := []

variable (n : Node)

def Node.emit (e : Effect) : Node := { n with out := n.out ++ [e] }

def Node.updPeer (p : Nat) (f : Peer → Peer) : Node :=
  { n with peer := fun q => if q = p then f (n.peer q) else n.peer q }

/-- `cl_send`, to the link of peer `p`. -/
def clSend (p : Nat) (f : Frame) : Node := n.emit (.send p f)

def Node.wireTerm : Nat := u32 n.term

/-! ## Term, vote and log records -/

def storageWriteFailed : Node :=
  let n := { n with storageFailed := true }
  match n.role with
  | .leader => { n with role := .follower, leaderId := none }
  | _ => n

def persistMeta : Node :=
  if n.io.metaOk then n.emit (.setMeta n.term n.votedFor) else storageWriteFailed n

/-- The allocation size that covers `fileEnd`: the next multiple of the chunk. -/
def Config.reserveTarget (c : Config) (fileEnd : Nat) : Nat :=
  (fileEnd + c.fallocChunk - 1) / c.fallocChunk * c.fallocChunk

def persistReserve (fileEnd : Nat) : Node :=
  if fileEnd ≤ n.persist.allocSize then n
  else if n.io.fallocOk then
    let target := n.cfg.reserveTarget fileEnd
    { n with persist := { n.persist with allocSize := target } }.emit (.file (.falloc target))
  else { n with persist := { n.persist with allocSize := fileEnd } }

def persistWriteFlush : Node :=
  if n.persist.wbuf = [] then n
  else
    let bs := n.persist.wbuf
    let n := persistReserve n (n.persist.writePos + bs.length)
    let n :=
      if n.io.writeOk then
        let pos := n.persist.writePos
        { n with persist := { n.persist with writePos := pos + bs.length } }.emit
          (.file (.write pos bs))
      else storageWriteFailed n
    { n with persist := { n.persist with wbuf := [] } }

/-- `persist_append`: buffer one record. -/
def persistAppend (ps : Persist) (index : Nat) (e : Entry) : Persist :=
  let ps := offEnsure ps (index - ps.baseIndex)
  { ps with
    wbuf := ps.wbuf ++ encRecord index e
    offsets := ps.offsets.set (index - ps.baseIndex - 1) ps.logSize
    logSize := ps.logSize + recSize e
    dirty := true }

def persistSync : Node :=
  let n := persistWriteFlush n
  if n.storageFailed then n
  else if n.persist.dirty then
    if n.io.fsyncOk then
      let n := n.emit .fsync
      { n with persist := { n.persist with dirty := false }
               log := { n.log with durableIndex := n.log.lastIndex } }
    else storageWriteFailed n
  else { n with log := { n.log with durableIndex := n.log.lastIndex } }

def persistTruncate (idx : Nat) : Node :=
  if idx < 1 then n
  else
    let n := persistWriteFlush n
    let slot := idx - n.persist.baseIndex - 1
    let newSize :=
      if n.persist.baseIndex < idx ∧ slot < n.persist.offsets.length then
        n.persist.offsets.getD slot 0
      else n.persist.logSize
    if n.io.truncateOk then
      { n with persist := { n.persist with logSize := newSize, writePos := newSize
                                           dirty := true } }.emit (.file (.truncate newSize))
    else n

/-- `log_truncate_from`: never into the compacted prefix. -/
def logTruncateFrom (idx : Nat) : Node :=
  let idx := if idx ≤ n.log.baseIndex then n.log.baseIndex + 1 else idx
  if n.log.lastIndex < idx then n
  else
    let keep := idx - 1 - n.log.baseIndex
    let n := persistTruncate n idx
    { n with log := { n.log with entries := n.log.entries.take keep } }

def logAppend (e : Entry) : Node :=
  { n with persist := persistAppend n.persist (n.log.lastIndex + 1) e
           log := { n.log with entries := n.log.entries ++ [e] } }

/-! ## Snapshot and compaction -/

/-- The record `snap_write_record` writes for a message of a queue. -/
def snapRecord (q : Queue) (m : Msg) : SnapRec where
  vhost := q.vhost
  queue := q.name
  exchange := m.exchange
  routingKey := m.routingKey
  props := m.props
  body := m.body
  clusterId := m.clusterId

/-- The live-message dump of `snapshot_write`. -/
def liveRecords (b : Broker) (maxCid : Nat) : List SnapRec :=
  b.queues.values.flatMap fun q => (queueSnapshotRefs q maxCid).map (snapRecord q)

/-- `snapshot_write`; the flag is false for the return value -1. -/
def snapshotWrite (baseIndex baseTerm baseOffset : Nat) : Node × Bool :=
  if n.io.snapshotOk then
    (n.emit (.snapshot
      { baseIndex, baseTerm, baseOffset, topo := n.applied.topo
        msgs := liveRecords n.applied.broker baseIndex }), true)
  else (n, false)

/-- `snap_apply_record` on a well-formed record: declare the queue when it is missing, then
enqueue. -/
def snapApplyRecord (b : Broker) (r : SnapRec) : Broker :=
  let b := (brokerDeclareQueue b r.vhost r.queue 2).1
  brokerEnqueue b (vkey r.vhost r.queue)
    { exchange := r.exchange, routingKey := r.routingKey, props := r.props, body := r.body
      clusterId := r.clusterId }

def persistCompact (newBase newBaseOffset : Nat) : Node :=
  let n := persistWriteFlush n
  let ps := n.persist
  let drop := newBase - ps.baseIndex
  let live := n.log.lastIndex - newBase
  let offsets :=
    if drop < ps.offsets.length then shiftOffsets ps.offsets drop live else ps.offsets
  let n := { n with persist := { ps with offsets, baseIndex := newBase
                                         baseOffset := newBaseOffset, dirty := true } }
  if 0 < newBaseOffset then n.emit (.file (.punch newBaseOffset)) else n

/-- The index `log_compact_to` compacts to: clamped to what is applied and to below the
oldest live message. -/
def compactIndex (upto : Nat) : Nat :=
  let upto := min upto n.log.appliedIndex
  match brokerMinLiveClusterId n.applied.broker with
  | some live => if live ≤ upto then live - 1 else upto
  | none => upto

/-- The file offset `log_compact_to` takes for the first surviving record. -/
def compactOffset (upto : Nat) : Nat :=
  let slot := upto - n.persist.baseIndex
  if slot < n.persist.offsets.length then n.persist.offsets.getD slot 0
  else n.persist.logSize

/-- The number of entries a compaction has to drop at least. -/
def clCompactBatch : Nat := 4096

/-- Past `last_index` the log is empty here; the source's `memmove` length wraps. -/
def logCompactTo (upto : Nat) : Node :=
  let upto := compactIndex n upto
  if upto ≤ n.log.baseIndex then n
  else if upto - n.log.baseIndex < clCompactBatch then n
  else
    let newBaseTerm := logTermAt n.log upto
    let newBaseOffset := compactOffset n upto
    match snapshotWrite n upto newBaseTerm newBaseOffset with
    | (n, false) => n
    | (n, true) =>
      let n := { n with log :=
        { n.log with entries := n.log.entries.drop (upto - n.log.baseIndex)
                     baseIndex := upto, baseTerm := newBaseTerm
                     compactedTo := max n.log.compactedTo upto } }
      persistCompact n upto newBaseOffset

/-! ## Start-up -/

/-- `snapshot_load` and the topology replay of `persist_load`. -/
def loadSnapshot (applied : Applied) (s : SnapFile) : Applied :=
  let b := s.msgs.foldl snapApplyRecord applied.broker
  replayTopo { applied with broker := b } s.baseIndex s.topo

/-- `persist_load` into a fresh node. -/
def persistLoad (d : Disk) : Node :=
  let n := { n with term := d.term, votedFor := d.votedFor }
  let n :=
    match d.snap with
    | none => n
    | some s =>
      { n with
        applied := loadSnapshot n.applied s
        log := { n.log with baseIndex := s.baseIndex, baseTerm := s.baseTerm
                            appliedIndex := s.baseIndex, compactedTo := s.baseIndex }
        persist := { n.persist with baseIndex := s.baseIndex, baseOffset := s.baseOffset } }
  let entries := recoverEntries d.log n.log.baseIndex n.persist.baseOffset
  let off := n.persist.baseOffset
  let logSize := off + recsSize entries
  let ps := offEnsure n.persist entries.length
  { n with
    log := { n.log with entries, durableIndex := n.log.baseIndex + entries.length }
    persist := { ps with
      offsets := recOffsets off entries ++ ps.offsets.drop entries.length
      logSize, writePos := logSize, allocSize := logSize } }.emit (.file (.truncate logSize))

end BeaverMQ
