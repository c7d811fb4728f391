import BeaverMQ.Model.Consume
import BeaverMQ.Model.Server

/-!
# BeaverMQ — the atomic actions of the AMQP server

Reads are `Query`s, and `Act.run` is what an action does to the server when thread `t` does it.
A thread works on the dispatcher and on the connections of its own worker only.
-/

namespace BeaverMQ.Amqp

open Function

/-! ## Reads -/

inductive Query
  -- net.c
  | conns
  | stream (c : Nat)
  | frameMax (c : Nat)
  -- authstore.c and authlimit.c
  | authIsOpen
  | vhostExists (vhost : Bytes)
  | canAccessVhost (user vhost : Bytes)
  | authCheck (user vhost : Bytes) (kind : AuthKind) (object : Bytes)
  | lookupHash (user : Bytes)
  | passwordMatches (user stored pass : Bytes)
  | userTags (user : Bytes)
  | authAdmits
  -- broker.c and queue.c
  | getQueue (vhost name : Bytes)
  | exchangeExists (vhost name : Bytes)
  | routeTargets (vhost : Bytes) (m : Msg)
  | depth (r : QRef)
  | consumerCount (r : QRef)
  | exclusiveOwner (r : QRef)
  | deadLetterMsg (r : QRef) (m : Msg)
  | consumeWatermark (r : QRef)
  | memoryAlarm
  -- dispatch.c and protocol.c
  | consumers
  | consumer (id : Nat)
  | group (key : Bytes)
  | gets (c channel : Nat)
  -- cluster.c and the loop
  | proposalStatus (seq : Nat)
  | shouldThrottle
  | now

@[reducible] def Query.Ret : Query → Type
  | .conns => List Nat
  | .stream _ => Option Stream
  | .frameMax _ => Nat
  | .authIsOpen => Bool
  | .vhostExists _ => Bool
  | .canAccessVhost .. => Bool
  | .authCheck .. => Bool
  | .lookupHash _ => Option Bytes
  | .passwordMatches .. => Bool
  | .userTags _ => Nat
  | .authAdmits => Bool
  | .getQueue .. => Option QRef
  | .exchangeExists .. => Bool
  | .routeTargets .. => List QRef
  | .depth _ => Nat
  | .consumerCount _ => Int
  | .exclusiveOwner _ => Nat
  | .deadLetterMsg .. => Option Msg
  | .consumeWatermark _ => Nat
  | .memoryAlarm => Bool
  | .consumers => List Consumer
  | .consumer _ => Option Consumer
  | .group _ => Option Group
  | .gets .. => List GetUnacked
  | .proposalStatus _ => ProposalStatus
  | .shouldThrottle => Bool
  | .now => Nat

/-- `authstore_check`; an empty pattern denies, and so does a row whose patterns did not
compile. -/
def authstoreCheck (cfg : Cfg) (s : AuthStore) (user vhost : Bytes) (kind : AuthKind)
    (object : Bytes) : Bool :=
  match s.perms.get (user, vhost) with
  | none => false
  | some p =>
    let pat := match kind with
      | .configure => p.conf
      | .write => p.wr
      | .read => p.rd
    cfg.regcomp p.conf && cfg.regcomp p.wr && cfg.regcomp p.rd && pat ≠ [] &&
      cfg.regexec pat object

def Server.own (s : Server) (t : Thread) (c : Nat) : Option Conn :=
  (s.conns.get c).filter fun conn => conn.worker = t

def Dispatcher.find (d : Dispatcher) (id : Nat) : Option Consumer :=
  d.consumers.find? fun c => c.id = id

def Query.answer (cfg : Cfg) (t : Thread) (s : Server) : (q : Query) → q.Ret
  | .conns => s.conns.keys.filter fun c => (s.own t c).any fun conn => !conn.closing
  | .stream c => (s.own t c).map fun conn => conn.stream
  | .frameMax c => (s.own t c).elim 0 fun conn => conn.frameMax
  | .authIsOpen => s.auth.users.values.isEmpty && !s.bootstrapCompleted
  | .vhostExists vhost => vhost ∈ s.auth.vhosts
  | .canAccessVhost user vhost => (s.auth.perms.get (user, vhost)).isSome
  | .authCheck user vhost kind object => authstoreCheck cfg s.auth user vhost kind object
  | .lookupHash user => (s.auth.users.get user).map fun u => u.hash
  | .passwordMatches _ stored pass => cfg.passwordMatches stored pass
  | .userTags user => (s.auth.users.get user).elim 0 fun u => u.tags
  | .authAdmits => s.authAdmits
  | .getQueue vhost name => (brokerGetQueue s.broker vhost name).map qref
  | .exchangeExists vhost name => (s.broker.exchanges.get (vkey vhost name)).isSome
  | .routeTargets vhost m =>
    (BeaverMQ.routeTargets s.broker vhost m).filterMap fun key =>
      (s.broker.queues.get key).map qref
  | .depth r => (object s.broker r).elim 0 fun q => q.ready.length
  | .consumerCount r => (s.side r.gen).consumers
  | .exclusiveOwner r => (s.side r.gen).exclusiveOwner
  | .deadLetterMsg r m => (object s.broker r).bind (BeaverMQ.deadLetterMsg · m)
  | .consumeWatermark r => (object s.broker r).elim 0 queueConsumeWatermark
  | .memoryAlarm => s.memoryAlarm
  | .consumers => (s.dispatchers t).consumers
  | .consumer id => (s.dispatchers t).find id
  | .group key => (s.dispatchers t).groups.get key
  | .gets c channel => (s.own t c).elim [] fun conn => conn.gets channel
  | .proposalStatus seq => s.verdict seq
  | .shouldThrottle => s.congested
  | .now => s.now

/-! ## Writes -/

inductive Act
  | ask (q : Query)
  -- net.c
  | accept
  | send (c : Nat) (data : Bytes)
  | beginClose (c : Nat)
  | throttleRead (c : Nat)
  | resumeRead (c : Nat)
  | resumeSend (c : Nat)
  | setFrameMax (c n : Nat)
  | putStream (c : Nat) (st : Stream)
  | free (c : Nat)
  -- broker.c
  | declareQueue (vhost name : Bytes) (flags : Nat)
  | declareExchange (vhost name : Bytes) (type flags : Nat)
  | bind (vhost queue exchange routingKey : Bytes)
  | deleteQueue (vhost name : Bytes) (ifUnused ifEmpty wantCount : Bool)
  -- queue.c
  | setLimits (r : QRef) (maxLength maxBytes : Nat) (overflow : Overflow)
  | setDeadLetter (r : QRef) (exchange routingKey : Bytes)
  | setExclusiveOwner (r : QRef) (c : Nat)
  | enqueue (r : QRef) (m : Msg)
  | wakeWaiters (r : QRef)
  | dequeue (r : QRef)
  | requeueHand (r : QRef)
  | unrefHand
  | consumeOnDeliver (r : QRef) (cid : Nat) (noAck : Bool)
  | consumeOnAck (r : QRef) (cid : Nat)
  | markReplicated (r : QRef) (watermark : Nat)
  | drainConsumed (r : QRef) (watermark : Nat)
  | purge (r : QRef)
  | addWaiter (r : QRef)
  | removeWaiter (r : QRef)
  | consumersInc (r : QRef)
  | consumersDec (r : QRef)
  -- dispatch.c
  | notify (r : QRef)
  | takePending
  | pick (key : Bytes)
  | nextDeliveryTag
  | addUnacked (id tag : Nat)
  | requeueUnacked (id i : Nat)
  | dropUnacked (id i : Nat) (fate : Fate)
  | releaseUnacked (id : Nat)
  | addConsumer (c channel : Nat) (tag : Bytes) (r : QRef) (noAck : Bool) (prefetch : Nat)
  | leaveGroup (id : Nat)
  | unlink (id : Nat)
  | setPrefetch (id prefetch : Nat)
  -- protocol.c
  | nextSeq (c : Nat)
  | keepGet (c channel tag : Nat) (r : QRef)
  | requeueGet (c channel i : Nat)
  | dropGet (c channel i : Nat) (fate : Fate)
  | releaseGet (c channel : Nat)
  -- cluster.c and authstore.c
  | propose (op : ClusterOp)
  | setAuth (auth : AuthStore)

@[reducible] def Act.Ret : Act → Type
  | .ask q => q.Ret
  | .accept => Nat
  | .send .. => Bool
  | .beginClose _ => Bool
  | .resumeSend _ => Bool
  | .declareQueue .. => Option (Nat × Bool)
  | .declareExchange .. => Option Bool
  | .bind .. => Bool
  | .deleteQueue .. => Option Nat
  | .enqueue .. => Option (List Msg)
  | .dequeue _ => Option Msg
  | .markReplicated .. => Bool
  | .takePending => List QRef
  | .pick _ => Option Nat
  | .nextDeliveryTag => Nat
  | .addConsumer .. => Bool
  | .leaveGroup _ => Option (QRef × Bool)
  | .nextSeq _ => Nat
  | .propose _ => Nat
  | _ => Unit

/-! ### Connections -/

variable (s : Server) (t : Thread)

def Server.updConn (c : Nat) (f : Conn → Conn) : Server :=
  { s with conns := s.conns.modify c fun conn => if conn.worker = t then f conn else conn }

/-- `on_new_connection` with `protocol_conn_new`. -/
def Server.accept : Nat × Server :=
  let c := s.nextConnId + 1
  (c, { s with conns := s.conns.insert c { worker := t, stream := { proto := { conn := c } } }
               nextConnId := c })

/-- `beaver_conn_send`, `beaver_conn_send_owned` and `beaver_conn_send_delivery`. The three buffers
of the last one, with a body that fits one frame, stay far below the length at which a buffer is
cut. -/
def Server.send (c : Nat) (data : Bytes) : Bool × Server :=
  match s.own t c with
  | none => (false, s)
  | some conn =>
    if conn.closing || data.isEmpty || !conn.writable then
      let hand := (s.hands t).map fun h => { h with failed := true }
      (false, { s with hands := update s.hands t hand })
    else (true, s.updConn t c fun conn => { conn with out := conn.out ++ [uvBuf data] })

/-- The head of `beaver_conn_close`: true for the first caller. -/
def Server.beginClose (c : Nat) : Bool × Server :=
  match s.own t c with
  | none => (false, s)
  | some conn =>
    if conn.closing then (false, s)
    else (true, s.updConn t c fun conn => { conn with closing := true })

/-- The head of `beaver_conn_throttle_read`. -/
def Server.throttleRead (c : Nat) : Server :=
  s.updConn t c fun conn => if conn.closing then conn else { conn with readPaused := true }

/-- The end of `on_write` once the buffer has drained: true when deliveries resume. -/
def Server.resumeSend (c : Nat) : Bool × Server :=
  match s.own t c with
  | none => (false, s)
  | some conn =>
    if conn.sendPaused && !conn.closing then
      (true, s.updConn t c fun conn => { conn with sendPaused := false })
    else (false, s)

/-! ### The registries -/

/-- `broker_declare_queue`: depth and `*out_created`; `none` is -2. -/
def Server.declareQueue (vhost name : Bytes) (flags : Nat) : Option (Nat × Bool) × Server :=
  match s.broker.queues.get (vkey vhost name) with
  | some q => (if q.flags = flags then some (q.ready.length, false) else none, s)
  | none =>
    (some (0, true), { s with broker := (brokerDeclareQueue s.broker vhost name flags).1 })

/-- `broker_declare_exchange`: `*out_created`; `none` is -2. -/
def Server.declareExchange (vhost name : Bytes) (type flags : Nat) : Option Bool × Server :=
  match s.broker.exchanges.get (vkey vhost name) with
  | some ex => (if ex.type = type && ex.flags = flags then some false else none, s)
  | none => (some true, { s with broker := brokerDeclareExchange s.broker vhost name type flags })

/-- `broker_bind`. -/
def Server.bind (vhost queue exchange routingKey : Bytes) : Bool × Server :=
  ((s.broker.exchanges.get (vkey vhost exchange)).isSome &&
      (s.broker.queues.get (vkey vhost queue)).isSome,
    { s with broker := brokerBind s.broker vhost queue exchange routingKey })

/-- `broker_delete_queue`; `none` is a refusal. -/
def Server.deleteQueue (vhost name : Bytes) (ifUnused ifEmpty : Bool) : Option Nat × Server :=
  match s.broker.queues.get (vkey vhost name) with
  | none => (none, s)
  | some q =>
    if ifUnused && 0 < (s.side q.gen).consumers then (none, s)
    else if ifEmpty && 0 < q.ready.length then (none, s)
    else (some q.ready.length, { s with broker := brokerDeleteQueue s.broker vhost name })

/-! ### Queues -/

variable (r : QRef)

def Server.updQueue (f : Queue → Queue) : Server :=
  { s with broker := updObject s.broker r f }

def Server.updSide (f : Side → Side) : Server :=
  { s with side := update s.side r.gen (f (s.side r.gen)) }

def Server.setRing (xs : List Copy) : Server :=
  { s with rings := update s.rings r.gen xs }

def Server.settle (xs : List Copy) (fate : Fate) : Server :=
  { s with settled := s.settled ++ xs.map fun x => (x, fate) }

def Server.setHand (hand : Option Held) : Server :=
  { s with hands := update s.hands t hand }

def queueSetDeadLetter (q : Queue) (exchange routingKey : Bytes) : Queue :=
  { q with dlExchange := exchange, dlRoutingKey := routingKey }

/-- `queue_enqueue` up to the release of the lock: the messages to dead-letter; `none` is
`QUEUE_FULL`. -/
def Server.enqueue (m : Msg) : Option (List Msg) × Server :=
  match object s.broker r with
  | none => (none, s)
  | some q =>
    match queueEnqueue s.broker q m with
    | none => (none, s)
    | some (q', out) =>
      let ring := s.rings r.gen
      let evicted := q.ready.length + 1 - q'.ready.length
      let s := s.updQueue r fun _ => q'
      let s := s.setRing r (ring.drop evicted ++ [⟨r.gen, s.accepted r.gen⟩])
      let s := s.settle (ring.take evicted) .evicted
      (some out, { s with accepted := update s.accepted r.gen (s.accepted r.gen + 1) })

/-- `queue_dequeue`; the message is in the caller's hand. -/
def Server.dequeue : Option Msg × Server :=
  match object s.broker r with
  | none => (none, s)
  | some q =>
    match q.ready with
    | [] => (none, s)
    | m :: rest =>
      let ring := s.rings r.gen
      let s := s.updQueue r fun q => { q with ready := rest }
      let s := s.setRing r ring.tail
      (some m, s.setHand t (some { copy := ring.headD ⟨r.gen, 0⟩, msg := m, queue := r }))

/-- `queue_requeue_internal`. -/
def Server.requeue (x : Copy) (m : Msg) : Server :=
  (s.updQueue r (queueRequeueInternal · m)).setRing r (s.rings r.gen ++ [x])

/-- The message in hand goes back to a queue. -/
def Server.requeueHand : Server :=
  match s.hands t with
  | none => s
  | some h => (s.requeue r h.copy h.msg).setHand t none

/-- `message_unref` of the reference that `queue_dequeue` handed over. Unless the message is
kept somewhere else by now this is the end of it. -/
def Server.unrefHand : Server :=
  match s.hands t with
  | none => s
  | some h => (s.settle [h.copy] (if h.failed then .lost else .deliveredNoAck)).setHand t none

/-- `queue_drain_consumed`. -/
def Server.drainConsumed (watermark : Nat) : Server :=
  match object s.broker r with
  | none => s
  | some q =>
    let q' := queueDrainConsumed q watermark
    let ring := s.rings r.gen
    let drained := q.ready.length - q'.ready.length
    ((s.updQueue r fun _ => q').setRing r (ring.drop drained)).settle (ring.take drained) .drained

/-- `queue_purge`. -/
def Server.purge : Server :=
  ((s.updQueue r queuePurge).setRing r []).settle (s.rings r.gen) .purged

/-- `queue_consume_mark_replicated`. -/
def Server.markReplicated (watermark : Nat) : Bool × Server :=
  if (s.side r.gen).consumeReplicated < watermark then
    (true, s.updSide r fun x => { x with consumeReplicated := watermark })
  else (false, s)

/-- `queue_add_waiter`. -/
def Server.addWaiter : Server :=
  s.updSide r fun x => if t ∈ x.waiters then x else { x with waiters := x.waiters ++ [t] }

/-- `queue_remove_waiter`. -/
def Server.removeWaiter : Server :=
  s.updSide r fun x => { x with waiters := x.waiters.swapErase t }

/-! ### Dispatchers -/

def Server.updDispatcher (f : Dispatcher → Dispatcher) : Server :=
  { s with dispatchers := update s.dispatchers t (f (s.dispatchers t)) }

def Dispatcher.notify (d : Dispatcher) (r : QRef) : Dispatcher :=
  if r ∈ d.pending then d else { d with pending := d.pending ++ [r] }

/-- `queue_wake_waiters`. -/
def Server.wakeWaiters : Server :=
  (s.side r.gen).waiters.foldl (fun s t => s.updDispatcher t (·.notify r)) s

def Dispatcher.updConsumer (d : Dispatcher) (id : Nat) (f : Consumer → Consumer) : Dispatcher :=
  { d with consumers := d.consumers.map fun c => if c.id = id then f c else c }

def Dispatcher.updGroup (d : Dispatcher) (key : Bytes) (f : Group → Group) : Dispatcher :=
  { d with groups := d.groups.modify key f }

/-- `consumer_reserve_unacked`: the capacity after it, unless there was no memory. -/
def Consumer.reserveUnacked (c : Consumer) (grows : Bool) : Option Nat :=
  if c.unacked.length < c.capUnacked then some c.capUnacked
  else if grows then some (if c.capUnacked ≠ 0 then c.capUnacked * 2 else 4)
  else none

/-- The search of `service_group` for a consumer that takes a message, `tries` candidates long:
closing connections are passed over, full ones are paused, and passed over are also full prefetch
windows and consumers without memory for one more unacked delivery. -/
def Server.pick (t : Thread) (key : Bytes) : Nat → Server → Option Nat × Server
  | 0, s => (none, s)
  | tries + 1, s =>
    let d := s.dispatchers t
    match d.groups.get key with
    | none => (none, s)
    | some g =>
      let s := s.updDispatcher t (·.updGroup key fun g => { g with rr := g.rr + 1 })
      let cand := (g.arr[g.rr % g.arr.length]?).bind d.find
      match cand with
      | none => Server.pick t key tries s
      | some c =>
        match s.own t c.conn with
        | none => Server.pick t key tries s
        | some conn =>
          if conn.closing then Server.pick t key tries s
          else if conn.sendPaused || conn.full then
            Server.pick t key tries
              (s.updConn t c.conn fun conn => { conn with sendPaused := true })
          else if !c.noAck && c.prefetch ≠ 0 && c.prefetch ≤ c.unacked.length then
            Server.pick t key tries s
          else if c.noAck then (some c.id, s)
          else
            match c.reserveUnacked (s.grows c.id g.rr) with
            | none => Server.pick t key tries s
            | some cap =>
              (some c.id, s.updDispatcher t (·.updConsumer c.id fun c =>
                { c with capUnacked := cap }))

/-- `consumer_add_unacked` with the message in hand; the slot was reserved by the search. -/
def Server.addUnacked (id tag : Nat) : Server :=
  match s.hands t with
  | none => s
  | some h =>
    (s.updDispatcher t (·.updConsumer id fun c =>
      { c with unacked := c.unacked ++ [⟨tag, h.copy, h.msg⟩] })).setHand t none

/-- The `i`-th delivery of a consumer, and the dispatcher without it. -/
def Dispatcher.takeUnacked (d : Dispatcher) (id i : Nat) :
    Option (Consumer × Unacked × Dispatcher) :=
  match d.find id with
  | none => none
  | some c =>
    match c.unacked[i]? with
    | none => none
    | some u =>
      some (c, u, d.updConsumer id fun c => { c with unacked := c.unacked.swapRemove i })

def Server.requeueUnacked (id i : Nat) : Server :=
  match (s.dispatchers t).takeUnacked id i with
  | none => s
  | some (c, u, d) => (s.updDispatcher t fun _ => d).requeue c.queue u.copy u.msg

def Server.dropUnacked (id i : Nat) (fate : Fate) : Server :=
  match (s.dispatchers t).takeUnacked id i with
  | none => s
  | some (_, u, d) => (s.updDispatcher t fun _ => d).settle [u.copy] fate

/-- One round of the teardown loop of `consumer_destroy`. -/
def Server.releaseUnacked (id : Nat) : Server :=
  match (s.dispatchers t).find id with
  | none => s
  | some c =>
    match c.unacked with
    | [] => s
    | u :: rest =>
      (s.updDispatcher t (·.updConsumer id fun c => { c with unacked := rest })).requeue
        c.queue u.copy u.msg

/-- The middle of `dispatcher_add_consumer`: true when the group is new. -/
def Server.addConsumer (c channel : Nat) (tag : Bytes) (r : QRef)
    (noAck : Bool) (prefetch : Nat) : Bool × Server :=
  let d := s.dispatchers t
  let id := d.nextId
  let new := (d.groups.get r.key).isNone
  let groups : Table Bytes Group := if new then d.groups.insert r.key { queue := r } else d.groups
  (new, s.updDispatcher t fun d =>
    { d with
      groups := Table.modify groups r.key fun g => { g with arr := g.arr ++ [id] }
      consumers := { id, conn := c, channel, tag, queue := r, noAck, prefetch } :: d.consumers
      nextId := id + 1 })

/-- The group part of `consumer_destroy`: the group's queue, and whether the group is gone. -/
def Server.leaveGroup (id : Nat) : Option (QRef × Bool) × Server :=
  let d := s.dispatchers t
  match d.find id with
  | none => (none, s)
  | some c =>
    match d.groups.get c.queue.key with
    | none => (none, s)
    | some g =>
      let arr := g.arr.swapErase id
      let rr := if arr.length < g.rr then 0 else g.rr
      if arr = [] then
        (some (g.queue, true), s.updDispatcher t fun d =>
          { d with groups := d.groups.erase c.queue.key })
      else
        (some (g.queue, false), s.updDispatcher t (·.updGroup c.queue.key fun g =>
          { g with arr, rr }))

/-! ### Outstanding pulls -/

def Server.nextSeq (c : Nat) : Nat × Server :=
  match s.own t c with
  | none => (0, s)
  | some conn =>
    let seq := conn.consumerSeq + 1
    (seq, s.updConn t c fun conn => { conn with consumerSeq := seq })

def Server.setGets (c channel : Nat) (gets : List GetUnacked) : Server :=
  s.updConn t c fun conn => { conn with gets := update conn.gets channel gets }

/-- `chan_get_unacked_add` with the message in hand. -/
def Server.keepGet (c channel tag : Nat) (r : QRef) : Server :=
  match s.hands t, s.own t c with
  | some h, some conn =>
    (s.setGets t c channel (conn.gets channel ++ [⟨tag, r, h.copy, h.msg⟩])).setHand t none
  | _, _ => s

def Server.requeueGet (c channel i : Nat) : Server :=
  match s.own t c with
  | none => s
  | some conn =>
    match (conn.gets channel)[i]? with
    | none => s
    | some g =>
      (s.setGets t c channel ((conn.gets channel).swapRemove i)).requeue g.queue g.copy g.msg

def Server.dropGet (c channel i : Nat) (fate : Fate) : Server :=
  match s.own t c with
  | none => s
  | some conn =>
    match (conn.gets channel)[i]? with
    | none => s
    | some g => (s.setGets t c channel ((conn.gets channel).swapRemove i)).settle [g.copy] fate

/-- One round of the loop of `chan_release_get_unacked`. -/
def Server.releaseGet (c channel : Nat) : Server :=
  match s.own t c with
  | none => s
  | some conn =>
    match conn.gets channel with
    | [] => s
    | g :: rest => (s.setGets t c channel rest).requeue g.queue g.copy g.msg

/-! ### The cluster -/

/-- The names that `cluster_replicate_*` encode. -/
def ClusterOp.names : ClusterOp → List Bytes
  | .declareQueue d => [d.vhost, d.name, d.dlExchange, d.dlRoutingKey]
  | .declareExchange d => [d.vhost, d.name]
  | .bind r => [r.vhost, r.queue, r.exchange, r.routingKey]
  | .deleteQueue vhost name => [vhost, name]
  | .publish p => [p.vhost, p.exchange, p.routingKey]
  | .consume vhost name _ => [vhost, name]

/-- `cluster_replicate_*`: the sequence number, 0 for a name that is too long. -/
def Server.propose (op : ClusterOp) : Nat × Server :=
  if op.names.any fun n => 250 < n.length then (0, s)
  else (s.proposals.length + 1, { s with proposals := s.proposals ++ [op] })

/-! ## Execution -/

def Act.run (cfg : Cfg) (t : Thread) : (a : Act) → Server → a.Ret × Server
  | .ask q, s => (q.answer cfg t s, s)
  | .accept, s => s.accept t
  | .send c data, s => s.send t c data
  | .beginClose c, s => s.beginClose t c
  | .throttleRead c, s => ((), s.throttleRead t c)
  | .resumeRead c, s => ((), s.updConn t c fun conn => { conn with readPaused := false })
  | .resumeSend c, s => s.resumeSend t c
  | .setFrameMax c n, s => ((), s.updConn t c fun conn => { conn with frameMax := n })
  | .putStream c st, s => ((), s.updConn t c fun conn => { conn with stream := st })
  | .free c, s => ((), s.updConn t c fun conn => { conn with freed := true })
  | .declareQueue vhost name flags, s => s.declareQueue vhost name flags
  | .declareExchange vhost name type flags, s => s.declareExchange vhost name type flags
  | .bind vhost queue exchange rkey, s => s.bind vhost queue exchange rkey
  | .deleteQueue vhost name ifUnused ifEmpty _, s => s.deleteQueue vhost name ifUnused ifEmpty
  | .setLimits r maxLength maxBytes overflow, s =>
    ((), s.updQueue r fun q => { q with maxLength, maxBytes, overflow })
  | .setDeadLetter r exchange rkey, s => ((), s.updQueue r (queueSetDeadLetter · exchange rkey))
  | .setExclusiveOwner r c, s => ((), s.updSide r fun x => { x with exclusiveOwner := c })
  | .enqueue r m, s => s.enqueue r m
  | .wakeWaiters r, s => ((), s.wakeWaiters r)
  | .dequeue r, s => s.dequeue t r
  | .requeueHand r, s => ((), s.requeueHand t r)
  | .unrefHand, s => ((), s.unrefHand t)
  | .consumeOnDeliver r cid noAck, s => ((), s.updQueue r (queueConsumeOnDeliver · cid noAck))
  | .consumeOnAck r cid, s => ((), s.updQueue r (queueConsumeOnAck · cid))
  | .markReplicated r watermark, s => s.markReplicated r watermark
  | .drainConsumed r watermark, s => ((), s.drainConsumed r watermark)
  | .purge r, s => ((), s.purge r)
  | .addWaiter r, s => ((), s.addWaiter t r)
  | .removeWaiter r, s => ((), s.removeWaiter t r)
  | .consumersInc r, s => ((), s.updSide r fun x => { x with consumers := x.consumers + 1 })
  | .consumersDec r, s => ((), s.updSide r fun x => { x with consumers := x.consumers - 1 })
  | .notify r, s => ((), s.updDispatcher t (·.notify r))
  | .takePending, s =>
    ((s.dispatchers t).pending, s.updDispatcher t fun d => { d with pending := [] })
  | .pick key, s =>
    Server.pick t key (((s.dispatchers t).groups.get key).elim 0 fun g => g.arr.length) s
  | .nextDeliveryTag, s =>
    let tag := (s.dispatchers t).nextDeliveryTag + 1
    (tag, s.updDispatcher t fun d => { d with nextDeliveryTag := tag })
  | .addUnacked id tag, s => ((), s.addUnacked t id tag)
  | .requeueUnacked id i, s => ((), s.requeueUnacked t id i)
  | .dropUnacked id i fate, s => ((), s.dropUnacked t id i fate)
  | .releaseUnacked id, s => ((), s.releaseUnacked t id)
  | .addConsumer c channel tag r noAck prefetch, s =>
    s.addConsumer t c channel tag r noAck prefetch
  | .leaveGroup id, s => s.leaveGroup t id
  | .unlink id, s => ((), s.updDispatcher t fun d =>
    { d with consumers := d.consumers.filter fun c => c.id ≠ id })
  | .setPrefetch id prefetch, s =>
    ((), s.updDispatcher t (·.updConsumer id fun c => { c with prefetch }))
  | .nextSeq c, s => s.nextSeq t c
  | .keepGet c channel tag r, s => ((), s.keepGet t c channel tag r)
  | .requeueGet c channel i, s => ((), s.requeueGet t c channel i)
  | .dropGet c channel i fate, s => ((), s.dropGet t c channel i fate)
  | .releaseGet c channel, s => ((), s.releaseGet t c channel)
  | .propose op, s => s.propose op
  | .setAuth auth, s => ((), { s with auth })

/-- Programs of the loop threads. -/
abbrev Proc := Prog Act Act.Ret

def ask (q : Query) : Proc q.Ret := .act (.ask q) .ret

def act (a : Act) : Proc a.Ret := .act a .ret

end BeaverMQ.Amqp
