import BeaverMQ.Model.Broker

/-!
# BeaverMQ — consuming from a queue

The life of a message between a queue and its consumers, at the granularity of the locked
operations of `queue.c`: `service_group` and `deliver`, the acknowledgement paths, consumer and
channel teardown, `Basic.Get`. A worker that took a message off the ring records the delivery in
a critical section of its own; a `Basic.Get` with manual acknowledgement never records it at all.
-/

namespace BeaverMQ

def queueConsumeOnDeliver (q : Queue) (cid : Nat) (noAck : Bool) : Queue :=
  if cid = 0 then q
  else if noAck then { q with deliverHi := max q.deliverHi cid }
  else { q with unacked := insertUnacked cid q.unacked, deliverHi := max q.deliverHi cid }

def queueConsumeWatermark (q : Queue) : Nat :=
  match q.unacked with
  | oldest :: _ => oldest - 1
  | [] => q.deliverHi

/-- Who takes a message off a queue: a consumer or a `Basic.Get`, with its no-ack flag. -/
inductive Taker
  | consumer (noAck : Bool)
  | get (noAck : Bool)
  deriving DecidableEq

/-- A queue and the messages that left its ring and are not done with: `inHand` are with a
worker between `queue_dequeue` and the record of the delivery, `unsettled` wait for the
client (`consumer->unacked`, `chan->get_unacked`). `newest` is the largest cluster id that
was ever enqueued. -/
structure Station where
  queue : Queue
  inHand : List (Taker × Msg) := []
  unsettled : List Msg := []
  newest : Nat := 0

/-- The messages that are ready, in hand or not settled. -/
def Station.live (s : Station) : List Msg :=
  s.queue.ready ++ (s.inHand.map Prod.snd ++ s.unsettled)

inductive QueueCmd
  | enqueue (m : Msg)
  | dequeue (taker : Taker)
  /-- The message went out: `queue_consume_on_deliver`, or the entry of a manual `Basic.Get`. -/
  | deliver (k : Nat)
  /-- The delivery to a consumer failed: `queue_requeue_internal`. -/
  | giveBack (k : Nat)
  /-- Ack, or nack and reject without requeue: `queue_consume_on_ack`. -/
  | settle (k : Nat)
  /-- Nack and reject with requeue, or teardown of the consumer or the channel. -/
  | requeue (k : Nat)

/-- `queue_enqueue`; a refused message leaves the queue as it is. -/
def Station.enqueue (b : Broker) (s : Station) (m : Msg) : Station :=
  match queueEnqueue b s.queue m with
  | none => { s with newest := max s.newest m.clusterId }
  | some (queue, _) => { s with queue, newest := max s.newest m.clusterId }

/-- `queue_dequeue`. -/
def Station.dequeue (s : Station) (taker : Taker) : Option Station :=
  match s.queue.ready with
  | [] => none
  | m :: rest => some { s with queue := { s.queue with ready := rest }
                               inHand := s.inHand ++ [(taker, m)] }

/-- The end of `deliver`, of `dispatcher_note_pull` and of `chan_get_unacked_add`. -/
def Station.deliver (s : Station) (k : Nat) : Option Station :=
  match s.inHand[k]? with
  | none => none
  | some (taker, m) =>
    let s := { s with inHand := s.inHand.eraseIdx k }
    match taker with
    | .consumer true | .get true =>
      some { s with queue := queueConsumeOnDeliver s.queue m.clusterId true }
    | .consumer false =>
      some { s with queue := queueConsumeOnDeliver s.queue m.clusterId false
                    unsettled := s.unsettled ++ [m] }
    | .get false => some { s with unsettled := s.unsettled ++ [m] }

/-- The failure branch of `service_group`. -/
def Station.giveBack (s : Station) (k : Nat) : Option Station :=
  match s.inHand[k]? with
  | some (.consumer _, m) =>
    some { s with queue := queueRequeueInternal s.queue m, inHand := s.inHand.eraseIdx k }
  | _ => none

def Station.settle (s : Station) (k : Nat) : Option Station :=
  match s.unsettled[k]? with
  | none => none
  | some m => some { s with queue := queueConsumeOnAck s.queue m.clusterId
                            unsettled := s.unsettled.eraseIdx k }

def Station.requeue (s : Station) (k : Nat) : Option Station :=
  match s.unsettled[k]? with
  | none => none
  | some m => some { s with queue := queueRequeueInternal s.queue m
                            unsettled := s.unsettled.eraseIdx k }

def Station.step (b : Broker) (s : Station) : QueueCmd → Option Station
  | .enqueue m => some (s.enqueue b m)
  | .dequeue taker => s.dequeue taker
  | .deliver k => s.deliver k
  | .giveBack k => s.giveBack k
  | .settle k => s.settle k
  | .requeue k => s.requeue k

/-! ## All queues of a broker -/

/-- A broker whose workers consume from its queues. -/
structure Workshop where
  broker : Broker
  inHand : Bytes → List (Taker × Msg) := fun _ => []
  unsettled : Bytes → List Msg := fun _ => []
  newest : Bytes → Nat := fun _ => 0

def Workshop.station (w : Workshop) (key : Bytes) : Option Station :=
  (w.broker.queues.get key).map fun queue =>
    { queue, inHand := w.inHand key, unsettled := w.unsettled key, newest := w.newest key }

def Workshop.put (w : Workshop) (key : Bytes) (s : Station) : Workshop where
  broker := { w.broker with queues := w.broker.queues.insert key s.queue }
  inHand := Function.update w.inHand key s.inHand
  unsettled := Function.update w.unsettled key s.unsettled
  newest := Function.update w.newest key s.newest

def Workshop.step (w : Workshop) (cmd : Bytes × QueueCmd) : Option Workshop :=
  (w.station cmd.1).bind fun s => (s.step w.broker cmd.2).map (w.put cmd.1)

end BeaverMQ
