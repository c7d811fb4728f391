import BeaverMQ.Model.Replication

/-!
# BeaverMQ — elections, frame dispatch and timers

`observe_term` through `cl_dispatch`, and the timer callbacks. A handler takes the
node and gives back the node after it ran, with what it did outside in `out`.
-/

namespace BeaverMQ

variable (n : Node)

/-! ## Elections -/

/-- `observe_term`: adopt a strictly higher term. The flag is the return value. -/
def observeTerm (term : Nat) : Node × Bool :=
  if term ≤ n.term then (n, false)
  else
    (persistMeta { n with term, votedFor := none, inPrevote := false, role := .follower
                          leaderId := none, throttle := false }, true)

def logIsCurrent (l : Log) (candIdx candTerm : Nat) : Bool :=
  let myTerm := logTermAt l l.lastIndex
  if candTerm ≠ myTerm then myTerm < candTerm else l.lastIndex ≤ candIdx

/-- `send_vote_request`: to every connected peer. -/
def sendVoteRequest (prevote : Bool) : Node :=
  let last := n.log.lastIndex
  let lastTerm := logTermAt n.log last
  let f := if prevote then Frame.prevote (u32 (n.term + 1)) last lastTerm
           else Frame.voteReq n.wireTerm last lastTerm
  n.cfg.peerIds.foldl
    (fun n p => if (n.peer p).linkState = .up then clSend n p f else n) n

def slashVhost : Bytes := [47]

def clusterReplicateAddVhost (vhost : Bytes) : Node :=
  proposeInternal n ClOp.addVhost.code (wrStr vhost)

def becomeLeader : Node :=
  let next := n.log.lastIndex + 1
  let n := { n with
    role := .leader
    leaderId := some n.cfg.selfId
    inPrevote := false
    peer := fun p => { n.peer p with nextIndex := next, matchIndex := 0, durableIndex := 0
                                     inflight := 0, snap := {} } }
  let n := logAppend n ⟨n.term, ClOp.noop.code, []⟩
  let n := replicateToPeers n
  if slashVhost ∈ n.applied.auth.vhosts then n else clusterReplicateAddVhost n slashVhost

def becomeCandidate : Node :=
  let n := persistMeta { n with inPrevote := false, term := n.term + 1
                                votedFor := some n.cfg.selfId, role := .candidate
                                leaderId := none, votesGranted := 1 }
  if n.cfg.quorum ≤ n.votesGranted then becomeLeader n else sendVoteRequest n false

def startPrevote : Node :=
  let n := { n with inPrevote := true, prevotesGranted := 1, leaderId := none }
  if n.cfg.quorum ≤ n.prevotesGranted then becomeCandidate n else sendVoteRequest n true

/-- `CL_FRAME_PREVOTE`. -/
def onPrevote (p term lastIndex lastTerm : Nat) : Node :=
  let freshLeader := n.role = .leader ∨
    sub64 n.now n.lastLeaderContact < n.cfg.electionMinMs
  let grant := ¬ freshLeader ∧ n.term + 1 ≤ term ∧ logIsCurrent n.log lastIndex lastTerm
  clSend n p (.prevoteResp n.wireTerm grant)

/-- `CL_FRAME_PREVOTE_RESP`. -/
def onPrevoteResp (term : Nat) (granted : Bool) : Node :=
  match observeTerm n term with
  | (n, true) => n
  | (n, false) =>
    if n.inPrevote ∧ granted then
      let n := { n with prevotesGranted := n.prevotesGranted + 1 }
      if n.cfg.quorum ≤ n.prevotesGranted then becomeCandidate n else n
    else n

/-- `CL_FRAME_VOTE_REQ`. -/
def onVoteReq (p term lastIndex lastTerm : Nat) : Node :=
  let n := (observeTerm n term).1
  if term = n.term ∧ logIsCurrent n.log lastIndex lastTerm ∧
      (n.votedFor = none ∨ n.votedFor = some p) then
    let cur := n.wireTerm
    clSend (persistMeta { n with votedFor := some p }) p (.voteResp cur true)
  else clSend n p (.voteResp n.wireTerm false)

/-- `CL_FRAME_VOTE_RESP`. -/
def onVoteResp (term : Nat) (granted : Bool) : Node :=
  match observeTerm n term with
  | (n, true) => n
  | (n, false) =>
    if n.role = .candidate ∧ term = n.term ∧ granted then
      let n := { n with votesGranted := n.votesGranted + 1 }
      if n.cfg.quorum ≤ n.votesGranted then becomeLeader n else n
    else n

/-! ## AppendEntries, receiving side -/

def sendAppendResp (p : Nat) (success : Bool) (hint : Nat) : Node :=
  clSend n p (.appendResp n.wireTerm success hint n.log.durableIndex)

/-- The part of `CL_FRAME_APPEND` after the log-matching check: replace everything behind
`prevIndex` by the frame's entries, advance the commit index and answer. -/
def acceptAppend (p prevIndex leaderCommit compactIdx : Nat) (entries : List Entry) : Node :=
  let n := logTruncateFrom n (prevIndex + 1)
  let n := entries.foldl logAppend n
  let n := persistWriteFlush n
  if n.storageFailed then sendAppendResp n p false n.log.lastIndex
  else
    let last := n.log.lastIndex
    let n := { n with leaderCommitSeen := leaderCommit }
    let newc := min leaderCommit last
    let n :=
      if n.log.commitIndex < newc then
        applyCommitted { n with log := { n.log with commitIndex := newc } }
      else n
    let n := compactPayloads n compactIdx
    sendAppendResp { n with compactHint := compactIdx } p true last

/-- `CL_FRAME_APPEND`. -/
def onAppend (p term prevIndex prevTerm leaderCommit compactIdx : Nat)
    (congested : Bool) (entries : List Entry) : Node :=
  let n := (observeTerm n term).1
  if term < n.term then sendAppendResp n p false n.log.lastIndex
  else
    let n := { n with role := .follower, leaderId := some p, inPrevote := false
                      lastLeaderContact := n.now, throttle := congested }
    if n.log.lastIndex < prevIndex then sendAppendResp n p false n.log.lastIndex
    else if 0 < prevIndex ∧ logTermAt n.log prevIndex ≠ prevTerm then
      sendAppendResp n p false (prevIndex - 1)
    else acceptAppend n p prevIndex leaderCommit compactIdx entries

/-- `CL_FRAME_APPEND_RESP`. -/
def onAppendResp (p term : Nat) (success : Bool) (hint durable : Nat) : Node :=
  match observeTerm n term with
  | (n, true) => n
  | (n, false) =>
    if n.role ≠ .leader then n
    else
      let n := n.updPeer p fun q => { q with durableIndex := durable }
      let n :=
        if success then
          advanceCommit (n.updPeer p fun q =>
            let m := max q.matchIndex hint
            { q with matchIndex := m, inflight := sub64 q.nextIndex (m + 1) })
        else
          n.updPeer p fun q =>
            { q with nextIndex := if hint + 1 < q.nextIndex then hint + 1 else q.nextIndex
                     matchIndex := min q.matchIndex hint, inflight := 0 }
      pumpPeer n p

/-! ## Forwarded proposals -/

/-- One op of a FORWARD batch. `isLeader` and `already` are read once per frame. -/
def forwardOne (origin : Nat) (isLeader : Bool) (already : Nat) (n : Node) (pr : Proposal) : Node :=
  if pr.seq ≠ 0 ∧ pr.seq ≤ already then n
  else if isLeader then
    let before := n.log.lastIndex
    let n := leaderAppend n pr.op pr.data
    if before < n.log.lastIndex then
      { n with fwd := pushFwdAckPending n.fwd ⟨n.log.lastIndex, origin, pr.seq⟩ }
    else n
  else proposeInternal n pr.op pr.data

/-- `CL_FRAME_FORWARD`. -/
def onForward (p : Nat) (ops : List Proposal) : Node :=
  let already := if p < clusterMaxNodes then n.fwd.committedSeq p else 0
  ops.foldl (forwardOne p (n.role = .leader) already) n

/-- `CL_FRAME_FORWARD_ACK`. -/
def onForwardAck (acked ackedIdx : Nat) : Node :=
  resolveLocalFwdAcks { n with fwd := { n.fwd with
    ackedSeq := max n.fwd.ackedSeq acked
    ackedIndex := max n.fwd.ackedIndex ackedIdx
    pending := n.fwd.pending.filter (fun pr => acked < pr.seq) } }

/-! ## State transfer, receiving side -/

/-- The install of `CL_FRAME_SNAP_BEGIN`: empty the queues, move the log to the boundary,
empty the log file and replay the leader's topology. -/
def installSnapshot (base baseTerm : Nat) (topo : List TopoRec) : Node :=
  let b := n.applied.broker
  let n := { n with
    applied := { n.applied with broker := { b with queues := b.queues.mapVal queuePurge } }
    log := { baseIndex := base, baseTerm, entries := [], commitIndex := base
             appliedIndex := base, durableIndex := base, compactedTo := base } }
  let n := if n.io.truncateOk then n.emit (.file (.truncate 0)) else n
  let n := { n with persist := { n.persist with
    wbuf := [], logSize := 0, writePos := 0, allocSize := 0, baseIndex := base
    baseOffset := 0, dirty := true } }
  if topo = [] then n else { n with applied := replayTopo n.applied base topo }

/-- `CL_FRAME_SNAP_BEGIN`. -/
def onSnapBegin (p term base baseTerm : Nat) (topo : List TopoRec) : Node :=
  if term < n.term then n
  else
    let n := (observeTerm n term).1
    let n := { n with role := .follower, leaderId := some p, lastLeaderContact := n.now }
    if base ≤ n.log.lastIndex then n else installSnapshot n base baseTerm topo

/-- `CL_FRAME_SNAP_CHUNK`. -/
def onSnapChunk (p term : Nat) (recs : List SnapRec) : Node :=
  if term < n.term then n
  else
    let n := { n with
      lastLeaderContact := n.now
      applied := { n.applied with broker := recs.foldl snapApplyRecord n.applied.broker } }
    clSend n p (.snapAck n.wireTerm false n.log.baseIndex)

/-- `CL_FRAME_SNAP_END`; the result of `snapshot_write` is not looked at. -/
def onSnapEnd (p term : Nat) : Node :=
  if term < n.term then n
  else
    let n := { n with lastLeaderContact := n.now }
    let n := (snapshotWrite n n.log.baseIndex n.log.baseTerm 0).1
    clSend n p (.snapAck n.wireTerm true n.log.baseIndex)

/-- `CL_FRAME_SNAP_ACK`. -/
def onSnapAck (p term : Nat) (final : Bool) (base : Nat) : Node :=
  match observeTerm n term with
  | (n, true) => n
  | (n, false) =>
    if n.role ≠ .leader ∨ (n.peer p).snap.active = false then n
    else if final then
      pumpPeer (n.updPeer p fun q =>
        { q with snap := {}, nextIndex := base + 1, matchIndex := base
                 durableIndex := base, inflight := 0 }) p
    else
      snapPump (n.updPeer p fun q =>
        { q with snap := { q.snap with unackedChunks := q.snap.unackedChunks - 1 } }) p

/-! ## Links -/

def dropPeerLink (p : Nat) : Node :=
  n.updPeer p fun q => { q with linkState := .down, snap := {} }

/-- The end of `on_inbound_read`: the accepted socket is bound to the peer. -/
def onHello (p : Nat) : Node :=
  let n := clSend n p (.helloAck n.wireTerm)
  peerOnLinkUp (n.updPeer p fun q => { q with linkState := .up }) p

/-- `CL_FRAME_HELLO_ACK`. -/
def onHelloAck (p : Nat) : Node :=
  peerOnLinkUp (n.updPeer p fun q => { q with linkState := .up }) p

/-- `on_connect`: the outbound socket is connected. -/
def onConnect (p : Nat) : Node :=
  clSend (n.updPeer p fun q => { q with linkState := .handshaking }) p (.hello n.wireTerm)

/-- `cl_dispatch`, for a frame from peer `p`. HELLO is taken by `on_inbound_read`. -/
def clDispatch (p : Nat) : Frame → Node
  | .hello _ => onHello n p
  | .helloAck _ => onHelloAck n p
  | .prevote t li lt => onPrevote n p t li lt
  | .prevoteResp t g => onPrevoteResp n t g
  | .voteReq t li lt => onVoteReq n p t li lt
  | .voteResp t g => onVoteResp n t g
  | .append t prev pt lc ci cong es => onAppend n p t prev pt lc ci cong es
  | .appendResp t ok hint dur => onAppendResp n p t ok hint dur
  | .forward _ ops => onForward n p ops
  | .forwardAck _ seq idx => onForwardAck n seq idx
  | .snapBegin t base bt topo => onSnapBegin n p t base bt topo
  | .snapChunk t recs => onSnapChunk n p t recs
  | .snapEnd t => onSnapEnd n p t
  | .snapAck t final base => onSnapAck n p t final base
  | .status t => (observeTerm n t).1

/-! ## Timers -/

def electionTimerCb : Node := if n.role = .leader then n else startPrevote n

/-- The per-peer part of `heartbeat_timer_cb`; `last` is read before the loop. -/
def heartbeatPeer (last : Nat) (n : Node) (p : Nat) : Node :=
  if (n.peer p).linkState ≠ .up then n
  else
    let n := pumpPeer n p
    if (n.peer p).snap.active = false ∧ last < (n.peer p).nextIndex then sendAppend n p else n

/-- `send_status`, to every connected peer. -/
def sendStatus : Node :=
  if n.role ≠ .leader then n
  else n.cfg.peerIds.foldl
    (fun n p => if (n.peer p).linkState = .up then clSend n p (.status n.wireTerm) else n) n

def heartbeatTimerCb : Node :=
  if n.role ≠ .leader then n
  else
    let n := leaderUpdateFlow n
    let n := n.cfg.peerIds.foldl (heartbeatPeer n.log.lastIndex) n
    let n := { n with statusTick := n.statusTick + 1 }
    if n.statusTick % 5 = 0 then sendStatus n else n

/-- The resend sweep of `fsync_timer_cb`, every 120 ticks. -/
def resendSweep : Node :=
  let tick := n.fwd.pendingTick + 1
  if 120 ≤ tick then
    let n : Node := { n with fwd := { n.fwd with pendingTick := 0 } }
    if n.fwd.pending = [] then n else resendPending n
  else { n with fwd := { n.fwd with pendingTick := tick } }

/-- The index the compaction sweep asks for. -/
def sweepIndex : Nat :=
  if n.role = .leader then allDurableIndex n else n.compactHint

/-- The compaction sweep of `fsync_timer_cb`, every 80 ticks. -/
def compactSweep : Node :=
  let tick := n.compactTick + 1
  if 80 ≤ tick then
    let n : Node := { n with compactTick := 0 }
    if sweepIndex n = 0 then n else logCompactTo n (sweepIndex n)
  else { n with compactTick := tick }

def fsyncTimerCb : Node :=
  let n := persistSync n
  let n := if n.cfg.durableCommit ∧ n.role = .leader then advanceCommit n else n
  compactSweep (resendSweep n)

end BeaverMQ
