import BeaverMQ.Model.Node

/-!
# BeaverMQ — commit, replication, state transfer and proposal forwarding

The functions of `cluster.c` between the log and the frame dispatcher: applying
committed entries, the commit rule, the AppendEntries window, the snapshot stream to a
peer, and the proposal path from a node's inbox to the leader and back.
-/

namespace BeaverMQ

variable (n : Node)

/-! ## Proposal status and acknowledgements -/

/-- `mark_proposal_status` with `CL_PROPOSAL_COMMITTED`, the only status ever recorded. -/
def markCommitted (f : Forwarding) (seq : Nat) : Forwarding :=
  if seq = 0 then f
  else
    let idx := seq % clStatusTableSize
    { f with statusVal := fun i => if i = idx then .committed else f.statusVal i
             statusSeq := fun i => if i = idx then seq else f.statusSeq i }

def clusterProposalStatus (seq : Nat) : ProposalStatus :=
  if seq = 0 then .rejected
  else
    let idx := seq % clStatusTableSize
    if n.fwd.statusSeq idx = seq then n.fwd.statusVal idx else .pending

def pushFwdAckPending (f : Forwarding) (a : FwdAck) : Forwarding :=
  if a.seq = 0 then f else { f with ackPending := f.ackPending ++ [a] }

/-- The first seq `resolve_local_fwd_acks` marks: at most a ring's worth. -/
def firstMarked (f : Forwarding) : Nat :=
  if clStatusTableSize ≤ f.ackedSeq ∧
      f.markedSeq + 1 < f.ackedSeq - (clStatusTableSize - 1) then
    f.ackedSeq - (clStatusTableSize - 1)
  else f.markedSeq + 1

def resolveLocalFwdAcks : Node :=
  if n.fwd.ackedSeq ≤ n.fwd.markedSeq ∨ n.log.appliedIndex < n.fwd.ackedIndex then n
  else
    let first := firstMarked n.fwd
    let f := (List.range' first (n.fwd.ackedSeq + 1 - first)).foldl markCommitted n.fwd
    { n with fwd := { f with markedSeq := f.ackedSeq } }

/-- The pop loop of `resolve_fwd_acks`: own proposals are marked, the others raise the
origin's `bump` and `bump_idx`. -/
def popFwdAcks (selfId commit : Nat) :
    List FwdAck → Forwarding → (Nat → Nat) → (Nat → Nat) →
      Forwarding × (Nat → Nat) × (Nat → Nat)
  | [], f, bump, bumpIdx => ({ f with ackPending := [] }, bump, bumpIdx)
  | a :: rest, f, bump, bumpIdx =>
    if commit < a.logIndex then ({ f with ackPending := a :: rest }, bump, bumpIdx)
    else if a.origin = selfId then
      popFwdAcks selfId commit rest (markCommitted f a.seq) bump bumpIdx
    else if a.origin < clusterMaxNodes ∧ bump a.origin < a.seq then
      popFwdAcks selfId commit rest f
        (fun i => if i = a.origin then a.seq else bump i)
        (fun i => if i = a.origin then a.logIndex else bumpIdx i)
    else popFwdAcks selfId commit rest f bump bumpIdx

/-- The body of the second loop of `resolve_fwd_acks`, for one origin. -/
def ackOrigin (bump bumpIdx : Nat → Nat) (n : Node) (id : Nat) : Node :=
  if bump id = 0 then n
  else
    let seq := max (n.fwd.committedSeq id) (bump id)
    let idx := max (n.fwd.committedIndex id) (bumpIdx id)
    let n := { n with fwd := { n.fwd with
      committedSeq := fun i => if i = id then seq else n.fwd.committedSeq i
      committedIndex := fun i => if i = id then idx else n.fwd.committedIndex i } }
    if id ∈ n.cfg.peerIds ∧ (n.peer id).linkState = .up then
      clSend n id (.forwardAck n.wireTerm seq idx)
    else n

def resolveFwdAcks : Node :=
  match popFwdAcks n.cfg.selfId n.log.commitIndex n.fwd.ackPending n.fwd
      (fun _ => 0) (fun _ => 0) with
  | (f, bump, bumpIdx) =>
    (List.range clusterMaxNodes).foldl (ackOrigin bump bumpIdx) { n with fwd := f }

/-! ## Applying and committing -/

/-- One turn of the loop of `apply_committed`. -/
def applyNext : Node :=
  let idx := n.log.appliedIndex + 1
  match logAt n.log idx with
  | some e => { n with applied := applyOp n.applied idx e.op e.payload
                       history := n.history ++ [(idx, e)]
                       log := { n.log with appliedIndex := idx } }
  | none => { n with log := { n.log with appliedIndex := idx } }

/-- The loop of `apply_committed`: `k` more indexes to apply. -/
def applyLoop : Nat → Node → Node
  | 0, n => n
  | k + 1, n => applyLoop k (applyNext n)

def applyCommitted : Node :=
  resolveLocalFwdAcks (applyLoop (n.log.commitIndex - n.log.appliedIndex) n)

def allDurableIndex : Nat :=
  n.cfg.peerIds.foldl (fun m p => min m (n.peer p).durableIndex) n.log.durableIndex

/-- `compact_payloads`: which bodies are gone is all that is kept of it. -/
def compactPayloads (upto : Nat) : Node :=
  { n with log := { n.log with
      compactedTo := max n.log.compactedTo (min upto n.log.commitIndex) } }

/-- One pass of the inner loop of the exchange sort in `advance_commit`: the maximum comes
to the front, displaced values stay where it was taken from. -/
def exchangePass : Nat → List Nat → Nat × List Nat
  | x, [] => (x, [])
  | x, y :: ys =>
    if x < y then
      let (m, rest) := exchangePass y ys
      (m, x :: rest)
    else
      let (m, rest) := exchangePass x ys
      (m, y :: rest)

/-- The exchange sort of `advance_commit`, descending; `k` bounds the outer loop. -/
def exchangeSort : Nat → List Nat → List Nat
  | _, [] => []
  | 0, v => v
  | k + 1, x :: xs =>
    let (m, rest) := exchangePass x xs
    m :: exchangeSort k rest

/-- The progress values `advance_commit` collects. -/
def commitVotes : List Nat :=
  if n.cfg.durableCommit then
    (if n.storageFailed then 0 else n.log.durableIndex) ::
      n.cfg.peerIds.map (fun p => (n.peer p).durableIndex)
  else n.log.lastIndex :: n.cfg.peerIds.map (fun p => (n.peer p).matchIndex)

def quorumIndex : Nat :=
  (exchangeSort n.cfg.nnodes (commitVotes n)).getD (n.cfg.quorum - 1) 0

def advanceCommit : Node :=
  let N := quorumIndex n
  let n :=
    if n.log.commitIndex < N ∧ logTermAt n.log N = n.term then
      resolveFwdAcks (applyCommitted { n with log := { n.log with commitIndex := N } })
    else n
  compactPayloads n (allDurableIndex n)

/-! ## AppendEntries -/

def clMaxAppendEntries : Nat := 512
def clMaxAppendBytes : Nat := 2 ^ 20
def clAppendFixed : Nat := 4 + 8 + 8 + 8 + 8 + 4
def clWindowEntries : Nat := 8192

/-- The batch loop of `send_append`: entries while both caps hold, the first always. -/
def takeBatch : List Entry → Nat → Nat → List Entry
  | [], _, _ => []
  | e :: es, cnt, size =>
    if clMaxAppendEntries ≤ cnt then []
    else if 0 < cnt ∧ clMaxAppendBytes < size + recSize e then []
    else e :: takeBatch es (cnt + 1) (size + recSize e)

def entriesFrom (l : Log) (ni : Nat) : List Entry := l.entries.drop (ni - l.baseIndex - 1)

/-- `send_append`. A peer at or below the compaction point gets an empty heartbeat. -/
def sendAppend (p : Nat) : Node :=
  let next := (n.peer p).nextIndex
  let ni := if next = 0 then 1 else next
  let batch :=
    if ni ≤ n.log.compactedTo then [] else takeBatch (entriesFrom n.log ni) 0 clAppendFixed
  let prev := ni - 1
  let n := clSend n p (.append n.wireTerm prev (logTermAt n.log prev) n.log.commitIndex
    (allDurableIndex n) n.throttle batch)
  n.updPeer p fun q => { q with nextIndex := q.nextIndex + batch.length
                                inflight := q.inflight + batch.length }

/-! ## State transfer, sending side -/

def clSnapWindow : Nat := 4
def clSnapChunkBytes : Nat := 256 * 1024

/-- The queue object a transfer references, registered or deleted since. -/
def queueObject (b : Broker) (ref : Bytes × Nat) : Option Queue :=
  match b.queues.get ref.1 with
  | some q =>
    if q.gen = ref.2 then some q else b.dropped.find? (fun q => q.gen = ref.2)
  | none => b.dropped.find? (fun q => q.gen = ref.2)

/-- The records `queue_snapshot_refs` yields for a referenced queue. -/
def queueDump (b : Broker) (base : Nat) (ref : Bytes × Nat) : List SnapRec :=
  match queueObject b ref with
  | some q => (queueSnapshotRefs q base).map (snapRecord q)
  | none => []

def snapStart (p : Nat) : Node :=
  let base := n.log.compactedTo
  let baseTerm := logTermAt n.log base
  let queues := n.applied.broker.queues.entries.map (fun e => (e.1, e.2.gen))
  let n := n.updPeer p fun q => { q with snap := { active := true, base, baseTerm, queues } }
  clSend n p (.snapBegin n.wireTerm base baseTerm n.applied.topo)

/-- Load queues until one has messages or none is left. -/
def snapLoad (b : Broker) (base : Nat) :
    List (Bytes × Nat) → List (Bytes × Nat) × List SnapRec
  | [] => ([], [])
  | ref :: refs =>
    match queueDump b base ref with
    | [] => snapLoad b base refs
    | r :: recs => (ref :: refs, r :: recs)

/-- The chunk loop: records while the frame stays under its cap, the first always. -/
def takeChunk : List SnapRec → Nat → Nat → List SnapRec
  | [], _, _ => []
  | r :: rs, cnt, size =>
    if cnt = 0 ∨ size + snapRecordSize r ≤ clSnapChunkBytes then
      r :: takeChunk rs (cnt + 1) (size + snapRecordSize r)
    else []

/-- The loop of `snap_pump`; `k` is the room left in the window. -/
def snapPumpLoop (p : Nat) : Nat → Node → Node
  | 0, n => n
  | k + 1, n =>
    let s := (n.peer p).snap
    let (queues, msgs) :=
      if s.msgs = [] then snapLoad n.applied.broker s.base s.queues else (s.queues, s.msgs)
    if msgs = [] then
      let n := n.updPeer p fun q => { q with snap := { q.snap with queues, msgs } }
      if s.endSent then n
      else
        let n := n.updPeer p fun q => { q with snap := { q.snap with endSent := true } }
        clSend n p (.snapEnd n.wireTerm)
    else
      let chunk := takeChunk msgs 0 4
      let n := clSend n p (.snapChunk n.wireTerm chunk)
      let left := msgs.drop chunk.length
      let queues := if left = [] then queues.tail else queues
      snapPumpLoop p k (n.updPeer p fun q =>
        { q with snap := { q.snap with queues, msgs := left
                                       unackedChunks := q.snap.unackedChunks + 1 } })

def snapPump (p : Nat) : Node :=
  if (n.peer p).snap.active then
    snapPumpLoop p (clSnapWindow - (n.peer p).snap.unackedChunks) n
  else n

/-! ## Pumping peers -/

/-- The window loop of `pump_peer`; a turn that sends no entry ends it. -/
def pumpLoop (p : Nat) : Nat → Node → Node
  | 0, n => n
  | k + 1, n =>
    if (n.peer p).nextIndex ≤ n.log.lastIndex ∧ (n.peer p).inflight < clWindowEntries then
      let before := (n.peer p).nextIndex
      let n := sendAppend n p
      if (n.peer p).nextIndex = before then n else pumpLoop p k n
    else n

def pumpPeer (p : Nat) : Node :=
  if n.role ≠ .leader ∨ (n.peer p).linkState ≠ .up then n
  else if (n.peer p).snap.active then snapPump n p
  else if 0 < n.log.compactedTo ∧ (n.peer p).nextIndex ≤ n.log.compactedTo then
    snapPump (snapStart n p) p
  else pumpLoop p (n.log.lastIndex + 1 - (n.peer p).nextIndex) n

def replicateToPeers : Node := n.cfg.peerIds.foldl pumpPeer n

/-! ## Forwarding proposals -/

def clFwdMaxOps : Nat := 1024
def clFwdMaxBytes : Nat := 256 * 1024

/-- The slice loop of `forward_batch_to_leader`. -/
def takeSlice : List Proposal → Nat → Nat → List Proposal
  | [], _, _ => []
  | pr :: prs, cnt, bytes =>
    if cnt < clFwdMaxOps ∧
        (cnt = 0 ∨ bytes + 16 + pr.data.length ≤ clFwdMaxBytes) then
      pr :: takeSlice prs (cnt + 1) (bytes + 16 + pr.data.length)
    else []

/-- `forward_batch_to_leader`; every turn of its loop takes at least one proposal. -/
def forwardLoop : Nat → Node → List Proposal → Node
  | 0, n, list => { n with fwd := { n.fwd with inbox := list ++ n.fwd.inbox } }
  | k + 1, n, list =>
    match list, n.leaderId with
    | [], _ => n
    | pr :: prs, some lid =>
      if lid ∈ n.cfg.peerIds ∧ (n.peer lid).linkState = .up then
        let slice := takeSlice (pr :: prs) 0 4
        let n := clSend n lid (.forward n.wireTerm slice)
        let n := { n with fwd := { n.fwd with pending := n.fwd.pending ++ slice } }
        forwardLoop k n ((pr :: prs).drop slice.length)
      else { n with fwd := { n.fwd with inbox := (pr :: prs) ++ n.fwd.inbox } }
    | pr :: prs, none => { n with fwd := { n.fwd with inbox := (pr :: prs) ++ n.fwd.inbox } }

def forwardBatchToLeader (list : List Proposal) : Node :=
  forwardLoop list.length n list

/-- Retransmit everything that still waits for an ack. -/
def resendPending : Node :=
  forwardBatchToLeader { n with fwd := { n.fwd with pending := [] } } n.fwd.pending

def proposeInternal (op : Nat) (data : Bytes) : Node :=
  let seq := n.fwd.seqNext + 1
  { n with fwd := { n.fwd with seqNext := seq, inbox := n.fwd.inbox ++ [⟨op, data, seq⟩] } }

def leaderAppend (op : Nat) (data : Bytes) : Node :=
  if n.role = .leader then { logAppend n ⟨n.term, op, data⟩ with logDirty := true } else n

def clFlowHigh : Nat := 16000
def clFlowLow : Nat := 6000

def leaderUpdateFlow : Node :=
  let backlog := sub64 n.log.lastIndex n.log.commitIndex
  if !n.throttle && clFlowHigh < backlog then { n with throttle := true }
  else if n.throttle && backlog < clFlowLow then { n with throttle := false }
  else n

def leaderFlush : Node :=
  if n.logDirty then
    leaderUpdateFlow (advanceCommit (replicateToPeers
      (persistWriteFlush { n with logDirty := false })))
  else n

/-- One turn of the leader loop of `drain_inbox`. -/
def drainOne (pr : Proposal) : Node :=
  if n.role = .leader then
    let n := leaderAppend n pr.op pr.data
    { n with fwd := pushFwdAckPending n.fwd ⟨n.log.lastIndex, n.cfg.selfId, pr.seq⟩ }
  else proposeInternal n pr.op pr.data

def drainInbox : Node :=
  let list := n.fwd.inbox
  let n := { n with fwd := { n.fwd with inbox := [] } }
  if n.role ≠ .leader then forwardBatchToLeader n list
  else leaderFlush (list.foldl drainOne n)

def peerOnLinkUp (p : Nat) : Node :=
  let next := n.log.lastIndex + 1
  let n := n.updPeer p fun q => { q with nextIndex := next, matchIndex := 0
                                         durableIndex := 0, inflight := 0, snap := {} }
  let n := pumpPeer n p
  if n.fwd.pending ≠ [] ∧ n.leaderId = some p then resendPending n else n

end BeaverMQ
