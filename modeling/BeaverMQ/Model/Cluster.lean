import BeaverMQ.Lib.Run
import BeaverMQ.Model.Dispatch

/-!
# BeaverMQ — the cluster

Nodes, their disks and the links between them. A step of the cluster is one callback
of one node's loop: a timer, a request of the data plane, one received frame, a change
of a link; or a crash, possibly in the middle of a callback, followed by a restart from
what the disk kept.

Each ordered pair of nodes has a FIFO channel. The node with the lower id dials. A
frame that reaches an end which is not up is lost; a new connection ends the old one, so
the answer to a HELLO starts from an empty channel and a HELLO may overtake what is left
unread of the connection before it (`Input.accept`).
-/

namespace BeaverMQ

/-- What the nodes of a cluster are started with. -/
structure Setup where
  nnodes : Nat
  durableCommit : Bool := true
  electionMinMs : Nat := 1000
  fallocChunk : Nat := 64 * 1024 * 1024
  defMaxLength : Nat := 0
  defMaxBytes : Nat := 0
  heap : Nat → Nat → Nat := fun _ _ => 0

structure Cluster where
  node : Nat → Node
  disk : Nat → Disk
  chan : Nat → Nat → List Frame

/-- `cluster_node_new` before `persist_init`. -/
def Setup.freshNode (s : Setup) (i : Nat) : Node where
  cfg := { selfId := i, nnodes := s.nnodes, durableCommit := s.durableCommit
           electionMinMs := s.electionMinMs, fallocChunk := s.fallocChunk }
  persist := { heap := s.heap i }
  applied := { broker := { defMaxLength := s.defMaxLength, defMaxBytes := s.defMaxBytes } }

def Setup.boot (s : Setup) (i : Nat) (d : Disk) : Node := persistLoad (s.freshNode i) d

/-- The node of a callback that is over, ready for the next one. -/
def Node.settle (n : Node) : Node := { n with out := [] }

/-- All nodes started on empty data directories, no link up. -/
def Setup.init (s : Setup) : Cluster where
  node := fun i => (s.boot i {}).settle
  disk := fun i => ({} : Disk).applyAll (s.boot i {}).out
  chan := fun _ _ => []

/-! ## Callbacks -/

/-- The callbacks of a node that need no frame. -/
inductive Callback
  | electionTimeout
  | heartbeat
  | fsyncTimer
  | drain
  | propose (op : Nat) (data : Bytes)
  /-- The end of a socket read: `leader_flush`. -/
  | readDone
  | connect (p : Nat)
  | linkDown (p : Nat)
  /-- Time passes. -/
  | tick (ms : Nat)
  | setIo (io : Io)
  /-- The data plane hands the head of a queue to a consumer. -/
  | consume (queue : Bytes) (noAck : Bool)
  | ack (queue : Bytes) (cid : Nat)
  | requeue (queue : Bytes) (cid : Nat)
  | purge (queue : Bytes)
  deriving DecidableEq

def Node.updQueue (n : Node) (key : Bytes) (f : Queue → Queue) : Node :=
  { n with applied := { n.applied with broker := n.applied.broker.updQueue key f } }

def Callback.run (n : Node) : Callback → Node
  | .electionTimeout => electionTimerCb n
  | .heartbeat => heartbeatTimerCb n
  | .fsyncTimer => fsyncTimerCb n
  | .drain => drainInbox n
  | .propose op data => proposeInternal n op data
  | .readDone => leaderFlush n
  | .connect p => onConnect n p
  | .linkDown p => dropPeerLink n p
  | .tick ms => { n with now := n.now + ms }
  | .setIo io => { n with io }
  | .consume queue noAck => n.updQueue queue (queueDeliver · noAck)
  | .ack queue cid => n.updQueue queue (queueConsumeOnAck · cid)
  | .requeue queue cid => n.updQueue queue (queueRequeue · cid)
  | .purge queue => n.updQueue queue queuePurge

/-- When a callback can happen: only the lower id dials, and only a link that is down. -/
def Callback.enabled (n : Node) : Callback → Bool
  | .connect p => p ∈ n.cfg.peerIds && n.cfg.selfId < p && (n.peer p).linkState = .down
  | .linkDown p => p ∈ n.cfg.peerIds
  | _ => true

/-- What starts a callback on a node. -/
inductive Input
  | own (cb : Callback)
  /-- The next frame from `src`. -/
  | frame (src : Nat)
  /-- The HELLO of a new connection from `src`, before what is unread of the old one. -/
  | accept (src : Nat)
  deriving DecidableEq

inductive Event
  | step (i : Nat) (inp : Input)
  /-- A crash after the first `k` effects of a callback, and a restart. -/
  | crashIn (i : Nat) (inp : Input) (k : Nat) (cut : Cut)
  /-- A crash between callbacks, and a restart. -/
  | crash (i : Nat) (cut : Cut)
  /-- The data directory is wiped and the node restarted. -/
  | wipe (i : Nat)

/-! ## Steps -/

def Cluster.setChan (c : Cluster) (src dst : Nat) (fs : List Frame) : Cluster :=
  { c with chan := fun a b => if a = src ∧ b = dst then fs else c.chan a b }

def isHello : Frame → Bool
  | .hello _ => true
  | _ => false

/-- One frame taken from the channel: the channels after it and the node after its
callback. A HELLO ends the old connection in both directions; an over-long frame makes
the receiver drop the link. -/
def Cluster.receive (c : Cluster) (src dst : Nat) (f : Frame) (rest : List Frame) :
    Cluster × Node :=
  let n := c.node dst
  let c := c.setChan src dst rest
  match f with
  | .hello t =>
    if src < dst then (c.setChan dst src [], clDispatch n src (.hello t)) else (c, n)
  | .helloAck t =>
    if (n.peer src).linkState = .handshaking then (c, clDispatch n src (.helloAck t))
    else (c, n)
  | f =>
    if (n.peer src).linkState ≠ .up then (c, n)
    else if clusterMaxPayload < f.length then (c.setChan src dst [], dropPeerLink n src)
    else (c, clDispatch n src f)

def Cluster.begin (c : Cluster) (i : Nat) : Input → Option (Cluster × Node)
  | .own cb =>
    if cb.enabled (c.node i) then
      let c' := match cb with
        | .linkDown p => c.setChan p i []
        | _ => c
      some (c', cb.run (c.node i))
    else none
  | .frame src =>
    match c.chan src i with
    | [] => none
    | f :: rest => some (c.receive src i f rest)
  | .accept src =>
    match (c.chan src i).dropWhile (fun f => !isHello f) with
    | [] => none
    | f :: rest => some (c.receive src i f rest)

def sentTo (dst : Nat) (effects : List Effect) : List Frame :=
  effects.filterMap fun
    | .send d f => if d = dst then some f else none
    | _ => none

def Cluster.perform (c : Cluster) (i : Nat) (effects : List Effect) : Cluster :=
  { c with
    disk := fun j => if j = i then (c.disk i).applyAll effects else c.disk j
    chan := fun a b => if a = i then c.chan a b ++ sentTo b effects else c.chan a b }

def Cluster.setNode (c : Cluster) (i : Nat) (n : Node) : Cluster :=
  { c with node := fun j => if j = i then n else c.node j }

/-- Node `i` restarts on the data directory `d`; what was on its way to it is lost. The
applied history is kept, since it speaks about the past. -/
def Cluster.restart (c : Cluster) (s : Setup) (i : Nat) (d : Disk) : Cluster :=
  let n := s.boot i d
  let c := { c with
    disk := fun j => if j = i then d.applyAll n.out else c.disk j
    chan := fun a b => if b = i then [] else c.chan a b }
  c.setNode i { n.settle with io := (c.node i).io, now := (c.node i).now
                              history := (c.node i).history }

def Cluster.step (s : Setup) (c : Cluster) : Event → Option Cluster
  | .step i inp =>
    if i < s.nnodes then
      (c.begin i inp).map fun (c', n) => (c'.perform i n.out).setNode i n.settle
    else none
  | .crashIn i inp k cut =>
    if i < s.nnodes then
      (c.begin i inp).map fun (c', n) =>
        let c' := c'.perform i (n.out.take k)
        c'.restart s i ((c'.disk i).crash cut)
    else none
  | .crash i cut =>
    if i < s.nnodes then some (c.restart s i ((c.disk i).crash cut)) else none
  | .wipe i => if i < s.nnodes then some (c.restart s i {}) else none

/-! ## Names for common events -/

def Event.own (i : Nat) (cb : Callback) : Event := .step i (.own cb)

def Event.deliver (src dst : Nat) : Event := .step dst (.frame src)

/-- Node `i` dials node `j` and both ends come up. -/
def Event.link (i j : Nat) : List Event :=
  [.own i (.connect j), .deliver i j, .deliver j i]

/-- Node `i` becomes a candidate and then a leader with the votes of node `j`. -/
def Event.elect (i j : Nat) : List Event :=
  [.own j (.tick 1000), .own i .electionTimeout, .deliver i j, .deliver j i, .deliver i j
  , .deliver j i]

/-- The first entries of the new leader `i` reach the disk of `j` and are committed. -/
def Event.agree (i j : Nat) : List Event :=
  [.deliver i j, .own j .fsyncTimer, .own i .fsyncTimer, .deliver j i, .own i .heartbeat,
    .deliver i j, .deliver j i]

end BeaverMQ
