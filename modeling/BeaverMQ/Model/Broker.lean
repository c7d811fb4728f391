import BeaverMQ.Lib.Table
import BeaverMQ.Model.Types

/-!
# BeaverMQ — queues, exchanges and routing (`queue.c`, `exchange.c`, `broker.c`)

The broker is the state machine behind the replicated log. Its two registries
are keyed by `broker_vkey`; a binding names its queue by that key, which is the
pointer identity of the source because deleting a queue first removes every
binding to it. Allocation never fails here.
-/

namespace BeaverMQ

/-- `beaver_message_t`. -/
structure Msg where
  exchange : Bytes
  routingKey : Bytes
  props : Bytes
  body : Bytes
  clusterId : Nat := 0
  dlHops : Nat := 0
  deriving DecidableEq

/-- `queue_overflow_t`. -/
inductive Overflow
  | rejectPublish
  | dropHead
  deriving DecidableEq

/-- `struct beaver_queue`: the declared properties, the ring of ready messages and
the consume tracking. `gen` tells apart the objects that lived under one key. -/
structure Queue where
  vhost : Bytes
  name : Bytes
  flags : Nat
  gen : Nat
  maxLength : Nat := 0
  maxBytes : Nat := 0
  overflow : Overflow := .rejectPublish
  /-- Dead-letter exchange; empty means none. -/
  dlExchange : Bytes := []
  dlRoutingKey : Bytes := []
  ready : List Msg := []
  deliverHi : Nat := 0
  /-- Cluster ids delivered and not acknowledged, ascending. -/
  unacked : List Nat := []
  /-- The messages behind `unacked`, held by the dispatchers. -/
  delivered : List Msg := []
  deriving DecidableEq

/-- One binding of an exchange: routing key and target queue. -/
structure Binding where
  routingKey : Bytes
  queue : Bytes
  deriving DecidableEq

/-- `struct beaver_exchange`; `type` is the `exchange_type_t` code. -/
structure Exchange where
  vhost : Bytes
  name : Bytes
  type : Nat
  flags : Nat
  bindings : List Binding := []
  deriving DecidableEq

def exchangeDirect : Nat := 0
def exchangeFanout : Nat := 1
def exchangeTopic : Nat := 2

/-- `struct beaver_broker`, with the process-wide default queue limits. `dropped`
holds deleted queues that a running state transfer may still reference. -/
structure Broker where
  queues : Table Bytes Queue := ∅
  exchanges : Table Bytes Exchange := ∅
  dropped : List Queue := []
  nextGen : Nat := 0
  defMaxLength : Nat := 0
  defMaxBytes : Nat := 0

/-- `broker_vkey`: vhost and name joined by the byte 1. -/
def vkey (vhost name : Bytes) : Bytes := vhost ++ 1 :: name

/-- `broker_vkey` as `snprintf` leaves it in a buffer of 512 bytes. -/
def brokerVkey (vhost name : Bytes) : Bytes := (vkey vhost name).take 511

/-! ## Queues -/

variable (b : Broker) (q : Queue)

/-- `q->total_bytes`: the sum of the queued body lengths. -/
def Queue.totalBytes : Nat := (q.ready.map (fun m => m.body.length)).sum

def queueWouldOverflow (bodyLen : Nat) : Bool :=
  let maxLen := if q.maxLength = 0 then b.defMaxLength else q.maxLength
  let maxBytes := if q.maxBytes = 0 then b.defMaxBytes else q.maxBytes
  (maxLen ≠ 0 && maxLen < q.ready.length + 1) ||
    (maxBytes ≠ 0 && maxBytes < q.totalBytes + bodyLen)

/-- The eviction loop of `queue_enqueue` under drop-head: the evicted messages, in
order, and the queue that is left. -/
def dropHeadLoop (b : Broker) (bodyLen : Nat) : List Msg → Queue → List Msg × Queue
  | [], q => ([], q)
  | m :: rest, q =>
    if queueWouldOverflow b q bodyLen then
      let (out, q') := dropHeadLoop b bodyLen rest { q with ready := rest }
      (m :: out, q')
    else ([], q)

/-- The part of `queue_enqueue` under the queue lock: `none` is `QUEUE_FULL`,
otherwise the new queue and the messages to dead-letter. -/
def queueEnqueue (m : Msg) : Option (Queue × List Msg) :=
  if queueWouldOverflow b q m.body.length then
    match q.overflow with
    | .rejectPublish => none
    | .dropHead =>
      let (out, q') := dropHeadLoop b m.body.length q.ready q
      some ({ q' with ready := q'.ready ++ [m] }, if q.dlExchange = [] then [] else out)
  else some ({ q with ready := q.ready ++ [m] }, [])

def queueRequeueInternal (m : Msg) : Queue :=
  { q with ready := q.ready ++ [m] }

/-- Insert into the ascending `unacked` array unless already there. -/
def insertUnacked (cid : Nat) : List Nat → List Nat
  | [] => [cid]
  | x :: xs => if cid < x then cid :: x :: xs
               else if cid = x then x :: xs else x :: insertUnacked cid xs

/-- `queue_dequeue` followed by `queue_consume_on_deliver`: hand the head of the
queue to a consumer. -/
def queueDeliver (noAck : Bool) : Queue :=
  match q.ready with
  | [] => q
  | m :: rest =>
    let q := { q with ready := rest }
    if m.clusterId = 0 then q
    else if noAck then { q with deliverHi := max q.deliverHi m.clusterId }
    else { q with unacked := insertUnacked m.clusterId q.unacked
                  delivered := q.delivered ++ [m]
                  deliverHi := max q.deliverHi m.clusterId }

def queueConsumeOnAck (cid : Nat) : Queue :=
  if cid = 0 then q
  else { q with unacked := q.unacked.erase cid
                delivered := q.delivered.eraseP (fun m => m.clusterId = cid) }

/-- A nacked, rejected or orphaned delivery returns to the tail of the queue; its id
stays in `unacked`. -/
def queueRequeue (cid : Nat) : Queue :=
  match q.delivered.find? (fun m => m.clusterId = cid) with
  | none => q
  | some m => queueRequeueInternal { q with delivered := q.delivered.erase m } m

/-- `queue_drain_consumed`: the drain stops at the first message it may not drop. -/
def queueDrainConsumed (watermark : Nat) : Queue :=
  let consumed (m : Msg) : Bool := m.clusterId ≠ 0 && m.clusterId ≤ watermark
  { q with ready := q.ready.dropWhile consumed }

def queuePurge : Queue := { q with ready := [] }

/-- `queue_snapshot_refs`: the ready replicated messages up to `maxCid`. -/
def queueSnapshotRefs (maxCid : Nat) : List Msg :=
  q.ready.filter (fun m => 0 < m.clusterId && m.clusterId ≤ maxCid)

/-- `queue_oldest_live_cluster_id`; `none` is `UINT64_MAX`. -/
def queueOldestLiveClusterId : Option Nat :=
  match q.unacked with
  | cid :: _ => some cid
  | [] => (q.ready.find? (fun m => m.clusterId ≠ 0)).map Msg.clusterId

/-! ## Exchanges -/

/-- `split_words`: the dot-separated words of a key. -/
def splitWords : Bytes → List Bytes
  | [] => [[]]
  | c :: cs =>
    match splitWords cs with
    | [] => [[]]
    | w :: ws => if c = 46 then [] :: w :: ws else (c :: w) :: ws

/-- `match_tokens` without its memo table: `*` (42) is one word, `#` (35) any number. -/
def matchTokens : List Bytes → List Bytes → Bool
  | [], key => key.isEmpty
  | p :: pat, key =>
    if p = [35] then key.tails.any (fun rest => matchTokens pat rest)
    else match key with
      | [] => false
      | w :: ws => (p = [42] || p = w) && matchTokens pat ws

def exchangeTopicMatch (pattern key : Bytes) : Bool :=
  matchTokens (splitWords pattern) (splitWords key)

def bindingMatches (ex : Exchange) (bd : Binding) (routingKey : Bytes) : Bool :=
  if ex.type = exchangeFanout then true
  else if ex.type = exchangeDirect then bd.routingKey = routingKey
  else if ex.type = exchangeTopic then exchangeTopicMatch bd.routingKey routingKey
  else false

/-- `exchange_route`: the matching queues, each once. -/
def exchangeRoute (ex : Exchange) (routingKey : Bytes) : List Bytes :=
  (ex.bindings.filter (fun bd => bindingMatches ex bd routingKey)).foldl
    (fun targets bd => if bd.queue ∈ targets then targets else targets ++ [bd.queue]) []

def exchangeBind (ex : Exchange) (routingKey queue : Bytes) : Exchange :=
  if ⟨routingKey, queue⟩ ∈ ex.bindings then ex
  else { ex with bindings := ex.bindings ++ [⟨routingKey, queue⟩] }

def exchangeUnbindQueue (ex : Exchange) (queue : Bytes) : Exchange :=
  { ex with bindings := ex.bindings.filter (fun bd => bd.queue ≠ queue) }

/-! ## Registry -/

def brokerGetQueue (vhost name : Bytes) : Option Queue :=
  b.queues.get (vkey vhost name)

def Broker.updQueue (key : Bytes) (f : Queue → Queue) : Broker :=
  { b with queues := b.queues.modify key f }

/-- `broker_declare_queue`: the broker and `*out_created`. A redeclaration, with the
same or with other flags, changes nothing. -/
def brokerDeclareQueue (vhost name : Bytes) (flags : Nat) : Broker × Bool :=
  let key := vkey vhost name
  match b.queues.get key with
  | some _ => (b, false)
  | none =>
    let q : Queue := { vhost, name, flags, gen := b.nextGen }
    ({ b with queues := b.queues.insert key q, nextGen := b.nextGen + 1 }, true)

def brokerDeclareExchange (vhost name : Bytes) (type flags : Nat) : Broker :=
  let key := vkey vhost name
  match b.exchanges.get key with
  | some _ => b
  | none => { b with exchanges := b.exchanges.insert key { vhost, name, type, flags } }

/-- The names of the standard exchanges. -/
def amqDirect : Bytes := [97, 109, 113, 46, 100, 105, 114, 101, 99, 116]
def amqFanout : Bytes := [97, 109, 113, 46, 102, 97, 110, 111, 117, 116]
def amqTopic : Bytes := [97, 109, 113, 46, 116, 111, 112, 105, 99]

def brokerDeclareDefaultExchanges (vhost : Bytes) : Broker :=
  let b := brokerDeclareExchange b vhost amqDirect exchangeDirect 0
  let b := brokerDeclareExchange b vhost amqFanout exchangeFanout 0
  brokerDeclareExchange b vhost amqTopic exchangeTopic 0

def brokerBind (vhost queue exchange routingKey : Bytes) : Broker :=
  let ekey := vkey vhost exchange
  let qkey := vkey vhost queue
  match b.exchanges.get ekey, b.queues.get qkey with
  | some ex, some _ =>
    { b with exchanges := b.exchanges.insert ekey (exchangeBind ex routingKey qkey) }
  | _, _ => b

/-- `broker_delete_queue` with neither `if_unused` nor `if_empty`. -/
def brokerDeleteQueue (vhost name : Bytes) : Broker :=
  let key := vkey vhost name
  match b.queues.get key with
  | none => b
  | some q =>
    { b with
      exchanges := b.exchanges.mapVal (exchangeUnbindQueue · key)
      queues := b.queues.erase key
      dropped := q :: b.dropped }

/-- `broker_min_live_cluster_id`; `none` is `UINT64_MAX`. -/
def brokerMinLiveClusterId : Option Nat :=
  (b.queues.values.filterMap queueOldestLiveClusterId).min?

/-! ## Routing -/

/-- The targets of `broker_route`: the named queue for the default exchange, else the
queues the exchange routes to. -/
def routeTargets (vhost : Bytes) (m : Msg) : List Bytes :=
  if m.exchange = [] then
    match b.queues.get (vkey vhost m.routingKey) with
    | some _ => [vkey vhost m.routingKey]
    | none => []
  else
    match b.exchanges.get (vkey vhost m.exchange) with
    | some ex => exchangeRoute ex m.routingKey
    | none => []

def brokerDlMaxHops : Nat := 8

/-- The message `broker_dead_letter_cb` routes for one evicted from `src`; `none` when
the hop guard drops it. -/
def deadLetterMsg (src : Queue) (m : Msg) : Option Msg :=
  if brokerDlMaxHops ≤ m.dlHops then none
  else if src.dlExchange = [] then none
  else
    let rkey := if src.dlRoutingKey = [] then m.routingKey else src.dlRoutingKey
    some { m with exchange := src.dlExchange, routingKey := rkey
                  clusterId := 0, dlHops := m.dlHops + 1 }

/-- `broker_route`, with the dead-lettering that each `queue_enqueue` does after its
lock is released, down to `fuel` nested calls. -/
def brokerRouteFuel : Nat → Broker → Bytes → Msg → Broker
  | 0, b, _, _ => b
  | fuel + 1, b, vhost, m =>
    (routeTargets b vhost m).foldl
      (fun b key =>
        match b.queues.get key with
        | none => b
        | some q =>
          match queueEnqueue b q m with
          | none => b
          | some (q', out) =>
            out.foldl
              (fun b old =>
                match deadLetterMsg q old with
                | none => b
                | some dm => brokerRouteFuel fuel b q.vhost dm)
              (b.updQueue key fun _ => q'))
      b

/-- The same call, told to report its end: `none` when `fuel` nested calls were not enough,
otherwise the broker and the messages that `broker_dead_letter_cb` built. -/
def brokerRouteWithin : Nat → Broker → Bytes → Msg → Option (Broker × List Msg)
  | 0, _, _, _ => none
  | fuel + 1, b, vhost, m =>
    (routeTargets b vhost m).foldlM
      (fun st key =>
        match st.1.queues.get key with
        | none => some st
        | some q =>
          match queueEnqueue st.1 q m with
          | none => some st
          | some (q', out) =>
            out.foldlM
              (fun st old =>
                match deadLetterMsg q old with
                | none => some st
                | some dm =>
                  (brokerRouteWithin fuel st.1 q.vhost dm).map fun r =>
                    (r.1, st.2 ++ dm :: r.2))
              (st.1.updQueue key fun _ => q', st.2))
      (b, [])

/-- Nested calls that are always enough. A dead-lettering takes one message off a queue and
puts copies with one more hop into at most as many queues as there are. -/
def routeBudget : Nat :=
  let queued := (b.queues.values.map (fun q => q.ready.length)).sum
  let queues := b.queues.values.length
  (queued + queues) * (queues + 1) ^ brokerDlMaxHops

def brokerRoute (vhost : Bytes) (m : Msg) : Broker :=
  brokerRouteFuel (routeBudget b + 1) b vhost m

/-- `queue_enqueue` on the queue registered under `key`, with its dead-lettering. -/
def brokerEnqueue (key : Bytes) (m : Msg) : Broker :=
  match b.queues.get key with
  | none => b
  | some q =>
    match queueEnqueue b q m with
    | none => b
    | some (q', out) =>
      out.foldl
        (fun b old =>
          match deadLetterMsg q old with
          | none => b
          | some dm => brokerRoute b q.vhost dm)
        (b.updQueue key fun _ => q')

end BeaverMQ
