import BeaverMQ.Model.Cluster
import BeaverMQ.Model.Protocol

/-!
# BeaverMQ — publisher confirms over the cluster

A persistent publish on a confirm-mode channel is proposed to the cluster, and a timer polls the
status of the proposal until it can answer the publisher (`pending_op_timer_cb`), while the
message is routed when the node applies the op.

Three records are kept that no code reads: `placed` says at which log index the leader appended
the op of a publish, `results` what routing it on its own node came to, `verdicts` what its
publisher was told.
-/

namespace BeaverMQ.Confirms

open Amqp (PendingOp clusterWaitTimeoutMs)

/-- What becomes of a message that `broker_route` takes to its targets. -/
inductive Outcome
  | unroutable
  | accepted
  /-- Some queue matches, and every one that does refuses. -/
  | refused
  deriving DecidableEq

/-- `queue_enqueue` on the queue under `key` fails. -/
def refusesAt (b : Broker) (m : Msg) (key : Bytes) : Bool :=
  (b.queues.get key).all fun q => (queueEnqueue b q m).isNone

def routeOutcome (b : Broker) (vhost : Bytes) (m : Msg) : Outcome :=
  if routeTargets b vhost m = [] then .unroutable
  else if (routeTargets b vhost m).all (refusesAt b m) then .refused
  else .accepted

/-- The answer of `cluster_proposal_status` as the data plane reads it. -/
def statusOf (n : Node) (seq : Nat) : Amqp.ProposalStatus :=
  match clusterProposalStatus n seq with
  | .pending => .pending
  | .committed => .committed
  | .rejected => .rejected

/-- The decision of `pending_op_timer_cb` for a publish: `none` keeps polling, otherwise whether
the publisher gets a Basic.Nack. -/
def confirmVerdict (st : Amqp.ProposalStatus) (now deadline : Nat) : Option Bool :=
  if st = .pending ∧ now < deadline then none else some (st ≠ .committed)

/-- A publish that waits on a node. -/
structure Waiting where
  node : Nat
  /-- Its place in `published`. -/
  id : Nat
  op : PendingOp

structure State where
  cluster : Cluster
  waits : List Waiting := []
  /-- Every publish, with the node it came in on. -/
  published : List (Nat × Publish) := []
  placed : List (Nat × Nat) := []
  results : List (Nat × Outcome) := []
  verdicts : List (Nat × Bool) := []

/-- What routing a publish on its own node came to, the first time its op was applied there. -/
def State.resultOf (a : State) (id : Nat) : Option Outcome :=
  (a.results.find? fun x => x.1 = id).map Prod.snd

/-- The results that applying one entry on node `i` adds. -/
def State.resultsAt (a : State) (i : Nat) (b : Broker) (idx : Nat) (e : Entry) :
    List (Nat × Outcome) :=
  a.placed.filterMap fun x =>
    match a.published[x.1]? with
    | some (j, p) =>
      if x.2 = idx ∧ j = i ∧ e.op = ClOp.publish.code ∧ publishOp p = some e.payload then
        some (x.1, routeOutcome b p.vhost (p.message idx))
      else none
    | none => none

/-- The results that applying entries one after the other adds. -/
def State.resultsOf (a : State) (i : Nat) : Applied → List (Nat × Entry) → List (Nat × Outcome)
  | _, [] => []
  | s, (idx, e) :: rest =>
    a.resultsAt i s.broker idx e ++ a.resultsOf i (applyOp s idx e.op e.payload) rest

inductive Step
  /-- A step of the cluster. -/
  | cluster (e : Event)
  /-- `finalize_publish` of a persistent message on a confirm-mode channel of node `i`, with the
  channel and the tag of its confirm. -/
  | publish (i channel tag : Nat) (p : Publish)
  /-- The leader has appended the op of a publish at this index. -/
  | place (id idx : Nat)
  /-- `pending_op_timer_cb` of the `k`-th wait. -/
  | poll (k : Nat)
  /-- The channel or the connection of the `k`-th wait closes. -/
  | cancel (k : Nat)

/-- A step of the cluster: applied entries leave their results, and a node that dies takes its
connections with it. -/
def State.onCluster (a : State) (c : Cluster) : Event → State
  | .step i _ =>
    { a with
      cluster := c
      results := a.results ++ a.resultsOf i (a.cluster.node i).applied
        ((c.node i).history.drop (a.cluster.node i).history.length) }
  | .crashIn i _ _ _ | .crash i _ | .wipe i =>
    { a with cluster := c, waits := a.waits.filter fun w => w.node ≠ i }

/-- The replicated part of `finalize_publish`. -/
def State.onPublish (a : State) (i channel tag : Nat) (p : Publish) (data : Bytes) : State :=
  let n := proposeInternal (a.cluster.node i) ClOp.publish.code data
  let op : PendingOp :=
    { seq := n.fwd.seqNext, channel, kind := .publishConfirm, confirmTag := tag
      deadline := n.now + clusterWaitTimeoutMs }
  { a with
    cluster := a.cluster.setNode i n
    waits := ⟨i, a.published.length, op⟩ :: a.waits
    published := a.published ++ [(i, p)] }

def step (s : Setup) (a : State) : Step → Option State
  | .cluster e => (a.cluster.step s e).map fun c => a.onCluster c e
  | .publish i channel tag p =>
    if i < s.nnodes then (publishOp p).map (a.onPublish i channel tag p) else none
  | .place id idx => some { a with placed := a.placed ++ [(id, idx)] }
  | .poll k =>
    match a.waits[k]? with
    | none => none
    | some w =>
      let n := a.cluster.node w.node
      match confirmVerdict (statusOf n w.op.seq) n.now w.op.deadline with
      | none => some a
      | some nack =>
        some { a with waits := a.waits.eraseIdx k, verdicts := a.verdicts ++ [(w.id, nack)] }
  | .cancel k => some { a with waits := a.waits.eraseIdx k }

def start (s : Setup) : State := { cluster := s.init }

end BeaverMQ.Confirms
