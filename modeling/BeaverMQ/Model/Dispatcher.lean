import BeaverMQ.Model.Actions

/-!
# BeaverMQ — routing and delivery as programs (`broker.c`, `dispatch.c`)

`broker_route` with its dead-lettering and the consumer dispatcher, as programs over the atomic
actions. Two loops have no bound of their own, the cascade of dead letters and the service of a
group that others keep filling; they run on fuel, and a program that used it up is one that is
still running.
-/

namespace BeaverMQ.Amqp

open Bytes

/-! ## Routing -/

/-- `queue_dead_letter` and `broker_dead_letter_cb`, over the router they publish with. -/
def deadLetter (route : Bytes → Msg → Proc Int) (r : QRef) (m : Msg) : Proc Unit := do
  match ← ask (.deadLetterMsg r m) with
  | none => return ()
  | some dm =>
    let _ ← route r.vhost dm
    return ()

/-- One target of `broker_route`: `queue_enqueue`, its dead letters, and the wakeup. The state
of the loop is `routed` and `enqueue_failed`. -/
def enqueueInto (route : Bytes → Msg → Proc Int) (m : Msg) (st : Nat × Bool) (r : QRef) :
    Proc (Nat × Bool) := do
  match ← act (.enqueue r m) with
  | none => return (st.1, true)
  | some out =>
    out.forM (deadLetter route r)
    act (.wakeWaiters r)
    return (st.1 + 1, st.2)

def routeResourceError : Int := -1

/-- `broker_route`: how many queues took the message. -/
def route : Nat → Bytes → Msg → Proc Int
  | 0, _, _ => .spin
  | fuel + 1, vhost, m => do
    let targets ← ask (.routeTargets vhost m)
    let (routed, failed) ← targets.foldlM (enqueueInto (route fuel) m) (0, false)
    return if routed = 0 && failed then routeResourceError else routed

/-! ## The bytes of a delivery -/

def classBasic : Nat := 60
def basicDeliver : Nat := 60

/-- The payload of a content header frame: class, weight, body size and the property section,
or empty property flags. -/
def contentHeader (m : Msg) : Bytes :=
  beBytes 2 classBasic ++ beBytes 2 0 ++ beBytes 8 m.body.length ++
    (if m.props = [] then beBytes 2 0 else m.props)

/-- The loop that writes a body in frames of at most `chunk` bytes. -/
def bodyFrames (channel chunk : Nat) : Nat → Bytes → List Bytes
  | 0, _ => []
  | n + 1, body =>
    if body = [] then []
    else frameWrite frameBody channel (body.take chunk) ::
      bodyFrames channel chunk n (body.drop chunk)

/-- The `Basic.Deliver` method frame and the content header frame. -/
def deliverHead (c : Consumer) (tag : Nat) (m : Msg) : Bytes :=
  frameWrite frameMethod c.channel
      (beBytes 2 classBasic ++ beBytes 2 basicDeliver ++ putShortstr c.tag ++
        beBytes 8 tag ++ beBytes 1 0 ++ putShortstr m.exchange ++
        putShortstr m.routingKey) ++
    frameWrite frameHeader c.channel (contentHeader m)

/-- What `deliver` writes: a body that fits one frame goes out from where it is, between the
head of its frame and the end byte; any other is copied frame by frame. -/
def deliverBytes (c : Consumer) (tag frameMax : Nat) (m : Msg) : Bytes :=
  let fmax := if frameMax = 0 then 131072 else frameMax
  let chunk := if frameOverhead < fmax then fmax - frameOverhead else 4096
  if 0 < m.body.length ∧ m.body.length ≤ chunk then
    deliverHead c tag m ++ beBytes 1 frameBody ++ beBytes 2 c.channel ++
      beBytes 4 m.body.length ++ m.body ++ [frameEnd]
  else deliverHead c tag m ++ (bodyFrames c.channel chunk m.body.length m.body).flatten

/-! ## Delivery -/

variable (cfg : Cfg)

def replicateWatermark (r : QRef) : Proc Unit := do
  if cfg.cluster then
    let watermark ← ask (.consumeWatermark r)
    if 0 < watermark then
      let advanced ← act (.markReplicated r watermark)
      if advanced then
        let _ ← act (.propose (.consume r.vhost r.name watermark))
        return ()
      else return ()
    else return ()
  else return ()

def dispatcherNotePull (r : QRef) (cid : Nat) : Proc Unit := do
  if !cfg.cluster || cid = 0 then return ()
  else
    act (.consumeOnDeliver r cid true)
    replicateWatermark cfg r

/-- `deliver`: true when the message went out. -/
def deliver (c : Consumer) (m : Msg) : Proc Bool := do
  let tag ← act .nextDeliveryTag
  let frameMax ← ask (.frameMax c.conn)
  let sent ← act (.send c.conn (deliverBytes c tag frameMax m))
  if sent then
    if !c.noAck then act (.addUnacked c.id tag)
    act (.consumeOnDeliver c.queue m.clusterId c.noAck)
    return true
  else return false

/-- `service_group`, for the group under `key` with queue `r`. -/
def serviceGroup (key : Bytes) (r : QRef) : Nat → Proc Unit
  | 0 => .spin
  | fuel + 1 => do
    match ← act (.pick key) with
    | none => return ()
    | some id =>
      match ← ask (.consumer id) with
      | none => return ()
      | some c =>
        match ← act (.dequeue r) with
        | none => return ()
        | some m =>
          let sent ← deliver c m
          if sent then
            act .unrefHand
            serviceGroup key r fuel
          else act (.requeueHand r)

def onAsync (fuel : Nat) : Proc Unit := do
  let list ← act .takePending
  list.forM fun q => do
    match ← ask (.group q.key) with
    | none => return ()
    | some g => if g.arr = [] then return () else serviceGroup q.key g.queue fuel

/-! ## Consumers -/

/-- `dispatcher_add_consumer`: false when the queue does not exist. -/
def dispatcherAddConsumer (c channel : Nat) (tag vhost name : Bytes) (noAck : Bool)
    (prefetch : Nat) : Proc Bool := do
  match ← ask (.getQueue vhost name) with
  | none => return false
  | some r =>
    let new ← act (.addConsumer c channel tag r noAck prefetch)
    act (.consumersInc r)
    if new then act (.addWaiter r)
    act (.notify r)
    return true

/-- `consumer_destroy` with `requeue`. -/
def consumerDestroy (c : Consumer) : Proc Unit := do
  act (.consumersDec c.queue)
  c.unacked.forM fun _ => act (.releaseUnacked c.id)
  replicateWatermark cfg c.queue
  match ← act (.leaveGroup c.id) with
  | none => pure ()
  | some (q, true) => act (.removeWaiter q)
  | some (q, false) => act (.notify q)
  if isAutoDelete c.queue.flags then
    let left ← ask (.consumerCount c.queue)
    if left = 0 then
      let _ ← act (.deleteQueue c.queue.vhost c.queue.name false false false)
      pure ()
    else pure ()
  act (.unlink c.id)

/-- The test of `settle_unacked` and `chan_get_unacked_settle`: with `multiple` every delivery
up to the tag, or all of them for tag 0. -/
def settles (tag : Nat) (multiple : Bool) (t : Nat) : Bool :=
  if multiple then tag = 0 || t ≤ tag else t = tag

/-- How deliveries are settled: put back, or dropped for good; `rejected` ones are
dead-lettered first. -/
structure Settling where
  tag : Nat
  multiple : Bool
  requeue : Bool
  rejected : Bool

/-- The inner loop of `settle_unacked`, at index `i` of the array: how many were settled. -/
def settleConsumer (route : Bytes → Msg → Proc Int) (how : Settling) (id : Nat) :
    Nat → Nat → Nat → Proc Nat
  | 0, _, here => return here
  | n + 1, i, here => do
    match ← ask (.consumer id) with
    | none => return here
    | some c =>
      match c.unacked[i]? with
      | none => return here
      | some u =>
        if settles how.tag how.multiple u.tag then
          if how.requeue then act (.requeueUnacked id i)
          else
            if how.rejected then deadLetter route c.queue u.msg
            act (.consumeOnAck c.queue u.msg.clusterId)
            act (.dropUnacked id i (if how.rejected then .rejected else .acked))
          if how.multiple then settleConsumer route how id n i (here + 1)
          else return here + 1
        else settleConsumer route how id n (i + 1) here

/-- The outer loop of `settle_unacked`. -/
def settleUnacked (route : Bytes → Msg → Proc Int) (conn channel : Nat) (how : Settling) :
    List Consumer → Nat → Proc Nat
  | [], settled => return settled
  | c :: cs, settled => do
    if c.conn ≠ conn ∨ c.channel ≠ channel then settleUnacked route conn channel how cs settled
    else
      let here ← settleConsumer route how c.id c.unacked.length 0 0
      if here = 0 then settleUnacked route conn channel how cs settled
      else
        act (.notify c.queue)
        if how.multiple then settleUnacked route conn channel how cs (settled + here)
        else return settled + here

/-- `dispatcher_ack` and `dispatcher_nack`. -/
def dispatcherSettle (route : Bytes → Msg → Proc Int) (conn channel : Nat) (how : Settling) :
    Proc Unit := do
  let consumers ← ask .consumers
  let _ ← settleUnacked route conn channel how consumers 0
  return ()

def dispatcherSetPrefetch (conn channel prefetch : Nat) : Proc Unit := do
  let consumers ← ask .consumers
  consumers.forM fun c => do
    if c.conn = conn ∧ c.channel = channel then
      act (.setPrefetch c.id prefetch)
      act (.notify c.queue)
    else return ()

def dispatcherCancel (conn channel : Nat) (tag : Bytes) : Proc Unit := do
  let consumers ← ask .consumers
  match consumers.find? fun c => c.conn = conn && c.channel = channel && c.tag = tag with
  | none => return ()
  | some c => consumerDestroy cfg c

def dispatcherConnHasConsumers (conn : Nat) : Proc Bool := do
  let consumers ← ask .consumers
  return consumers.any fun c => c.conn = conn

def dispatcherRemoveConnection (conn : Nat) : Proc Unit := do
  let consumers ← ask .consumers
  consumers.forM fun c => if c.conn = conn then consumerDestroy cfg c else return ()

def dispatcherRemoveChannel (conn channel : Nat) : Proc Unit := do
  let consumers ← ask .consumers
  consumers.forM fun c =>
    if c.conn = conn ∧ c.channel = channel then consumerDestroy cfg c else return ()

/-- `beaver_conn_close`. -/
def connClose (c : Nat) : Proc Unit := do
  let first ← act (.beginClose c)
  if first then dispatcherRemoveConnection cfg c else return ()

end BeaverMQ.Amqp
