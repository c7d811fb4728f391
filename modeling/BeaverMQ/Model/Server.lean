import BeaverMQ.Lib.Prog
import BeaverMQ.Lib.Swap
import BeaverMQ.Model.Amqp
import BeaverMQ.Model.Clients

/-!
# BeaverMQ — the AMQP server: its state and its atomic actions

The state that the worker threads and the cluster thread share, and what they do to it in one
go. An action is one call into a module that takes a lock, one access to an atomic, or one access
to data of the calling worker alone, which is merged with the locked call next to it.

A queue object lives on after its deletion for whoever still holds a pointer to it, so pointers
are `QRef`s: the constant fields of the object and its generation. Fields marked as bookkeeping
are not in the source; they give each accepted message an identity and say where it went.
-/

namespace BeaverMQ.Amqp

/-- The loop threads: the AMQP workers and the cluster. -/
inductive Thread
  | worker (n : Nat)
  | cluster
  deriving DecidableEq

/-! ## Queue objects -/

/-- A `beaver_queue_t *`. -/
structure QRef where
  vhost : Bytes
  name : Bytes
  flags : Nat
  gen : Nat
  deriving DecidableEq

def QRef.key (r : QRef) : Bytes := vkey r.vhost r.name

def qref (q : Queue) : QRef := ⟨q.vhost, q.name, q.flags, q.gen⟩

/-- The `serial`-th message that queue object `gen` accepted. -/
structure Copy where
  gen : Nat
  serial : Nat
  deriving DecidableEq

/-- The fields of `struct beaver_queue` that `Queue` does not have. -/
structure Side where
  exclusiveOwner : Nat := 0
  consumers : Int := 0
  waiters : List Thread := []
  consumeReplicated : Nat := 0
  deriving DecidableEq

def live (b : Broker) (r : QRef) : Bool := (b.queues.get r.key).any fun q => q.gen = r.gen

def object (b : Broker) (r : QRef) : Option Queue :=
  if live b r then b.queues.get r.key else b.dropped.find? fun q => q.gen = r.gen

def updObject (b : Broker) (r : QRef) (f : Queue → Queue) : Broker :=
  if live b r then b.updQueue r.key f
  else { b with dropped := b.dropped.map fun q => if q.gen = r.gen then f q else q }

/-! ## Connections -/

/-- `bmqp_state_t`. -/
inductive State
  | connected
  | handshake
  | channelOpen
  | active
  | closing
  deriving DecidableEq

def State.rank : State → Nat
  | .connected => 0
  | .handshake => 1
  | .channelOpen => 2
  | .active => 3
  | .closing => 4

/-- `proto_chan_t` without its outstanding pulls, which are in `Conn.gets`. -/
structure Chan where
  id : Nat
  prefetch : Nat := 0
  confirmMode : Bool := false
  confirmSeq : Nat := 0
  deriving DecidableEq

/-- `pending_kind_t`. -/
inductive PendingKind
  | exchangeDeclareOk
  | queueDeclareOk
  | queueBindOk
  | queueDeleteOk
  | publishConfirm
  deriving DecidableEq

/-- `pending_cluster_op_t`. -/
structure PendingOp where
  seq : Nat
  channel : Nat
  classId : Nat := 0
  methodId : Nat := 0
  kind : PendingKind
  qname : Bytes := []
  depth : Nat := 0
  confirmTag : Nat := 0
  deadline : Nat
  deriving DecidableEq

/-- `amqp_auth_work_t`; `stored` is `none` when the user does not exist. -/
structure AuthWork where
  user : Bytes
  pass : Bytes
  stored : Option Bytes
  deriving DecidableEq

/-- `struct beaver_proto` without what only `protocol_on_data` looks at. -/
structure Proto where
  conn : Nat
  state : State := .connected
  connectionOpen : Bool := false
  channelMax : Nat := 0
  frameMax : Nat := 0
  heartbeat : Nat := 0
  channels : List Chan := []
  pubActive : Bool := false
  pubHaveHeader : Bool := false
  pubMandatory : Bool := false
  pubChannel : Nat := 0
  pubExchange : Bytes := []
  pubRoutingKey : Bytes := []
  pubBodySize : Nat := 0
  /-- The body so far; `none` until a body spans frames. -/
  pubBody : Option Bytes := none
  pubProps : Bytes := []
  vhost : Bytes := []
  user : Bytes := []
  userTags : Nat := 0
  pendingOps : List PendingOp := []
  connBlocked : Bool := false
  pendingAuth : Option AuthWork := none
  exclQueues : List Bytes := []
  deriving DecidableEq

/-- The protocol state, whether the greeting has been consumed, and the bytes buffered and not
yet processed. -/
structure Stream where
  proto : Proto
  headerReceived : Bool := false
  inbuf : Bytes := []
  deriving DecidableEq

/-- `get_unacked_t`. -/
structure GetUnacked where
  tag : Nat
  queue : QRef
  copy : Copy
  msg : Msg
  deriving DecidableEq

/-- `struct beaver_conn`. `writable` says whether `uv_write` takes the next buffer and `full`
whether libuv holds more than `CONN_SEND_HIGH_WATER` bytes; `out` is what was written. -/
structure Conn where
  worker : Thread
  closing : Bool := false
  freed : Bool := false
  sendPaused : Bool := false
  readPaused : Bool := false
  frameMax : Nat := amqpDefaultFrameMax
  writable : Bool := true
  full : Bool := false
  out : List Bytes := []
  consumerSeq : Nat := 0
  gets : Nat → List GetUnacked := fun _ => []
  stream : Stream

/-! ## Dispatchers -/

/-- `unacked_t`. -/
structure Unacked where
  tag : Nat
  copy : Copy
  msg : Msg
  deriving DecidableEq

/-- `consumer_t`; `id` stands for its address. -/
structure Consumer where
  id : Nat
  conn : Nat
  channel : Nat
  tag : Bytes
  queue : QRef
  noAck : Bool
  prefetch : Nat
  unacked : List Unacked := []
  capUnacked : Nat := 0
  deriving DecidableEq

/-- `group_t`. -/
structure Group where
  queue : QRef
  arr : List Nat := []
  rr : Nat := 0
  deriving DecidableEq

/-- `struct beaver_dispatcher`; `consumers` is the global list, newest first. -/
structure Dispatcher where
  groups : Table Bytes Group := ∅
  consumers : List Consumer := []
  pending : List QRef := []
  nextDeliveryTag : Nat := 0
  nextId : Nat := 0

/-! ## The server -/

/-- The ops that `cluster_replicate_*` propose. -/
inductive ClusterOp
  | declareQueue (d : QueueDecl)
  | declareExchange (d : ExchangeDecl)
  | bind (r : BindReq)
  | deleteQueue (vhost name : Bytes)
  | publish (p : Publish)
  | consume (vhost name : Bytes) (watermark : Nat)

/-- `cluster_proposal_status_t`. -/
inductive ProposalStatus
  | pending
  | committed
  | rejected
  deriving DecidableEq

/-- How an accepted message left its queue for good. `lost` is none of the ways there should
be: a message given up although writing it to the client failed. -/
inductive Fate
  | acked
  | deliveredNoAck
  | rejected
  | evicted
  | drained
  | purged
  | lost

/-- A message that a thread has taken off a queue and holds in a local variable. `failed` says
that a write to the client failed since. -/
structure Held where
  copy : Copy
  msg : Msg
  queue : QRef
  failed : Bool := false

/-- `auth_perm_t`. -/
inductive AuthKind
  | configure
  | write
  | read
  deriving DecidableEq

/-- What does not change while the server runs. -/
structure Cfg where
  cluster : Bool := false
  auth : Bool := false
  maxMessageSize : Nat := 0
  regcomp : Bytes → Bool := fun _ => true
  regexec : Bytes → Bytes → Bool := fun _ _ => true
  passwordMatches : Bytes → Bytes → Bool := fun _ _ => true

/-- The shared state. -/
structure Server where
  broker : Broker := {}
  side : Nat → Side := fun _ => {}
  dispatchers : Thread → Dispatcher := fun _ => {}
  conns : Table Nat Conn := ∅
  nextConnId : Nat := 0
  auth : AuthStore := {}
  bootstrapCompleted : Bool := false
  /-- What `authlimit` says to the next login. -/
  authAdmits : Bool := true
  proposals : List ClusterOp := []
  verdict : Nat → ProposalStatus := fun _ => .pending
  congested : Bool := false
  memoryAlarm : Bool := false
  now : Nat := 0
  /-- Whether `realloc` has memory for more unacked deliveries of a consumer, at a turn of the
  round robin of its group. -/
  grows : Nat → Nat → Bool := fun _ _ => true
  /-- Bookkeeping: the identities of the messages in each ring, how many an object accepted,
  what each thread holds, and what became of the rest. -/
  rings : Nat → List Copy := fun _ => []
  accepted : Nat → Nat := fun _ => 0
  hands : Thread → Option Held := fun _ => none
  settled : List (Copy × Fate) := []

end BeaverMQ.Amqp
