import BeaverMQ.Lib.ChainMap
import BeaverMQ.Model.Amqp
import BeaverMQ.Model.AuthDb

/-!
# BeaverMQ — the broker's registries as objects behind pointers

`broker.c`, `exchange.c` and `hashmap.c` with the identity of objects: the registries are two
hash maps, a binding holds a pointer to a queue, and threads call the broker at the same time
under `b->lock`. A declare, a bind and a delete hold the lock for writing, a route holds it for
reading while it collects its targets and enqueues after it has let go. A delete walks over all
exchanges first and takes the queue out of its map last; every exchange it visits is a step.

Names are what a `char[256]` holds; those of a declare and a bind have passed `name_ok` or
`mgmt_name_ok`, those of a delete and of a route are arbitrary. Contents of queues are not
modelled: `if-unused` and `if-empty` are decided by what the queue says when it is asked. A route
that dead-letters routes again after its own lock is released, and that is a call of its own.
-/

namespace BeaverMQ.Objects

/-- What a buffer of 256 bytes holds. -/
abbrev Name := AuthDb.Str 256

/-- `beaver_queue_t`. `id` is its identity: an address is not given out again while a
reference to it is held, and a binding holds one. -/
structure QueueObj where
  id : Nat
  name : Name
  flags : UInt8
  deriving DecidableEq

/-- `binding_t`. -/
structure BindingObj where
  routingKey : Bytes
  queue : QueueObj
  deriving DecidableEq

/-- `struct beaver_exchange`; `type` is the `exchange_type_t` code. -/
structure ExchangeObj where
  type : Nat
  flags : UInt8
  bindings : List BindingObj := []
  deriving DecidableEq

/-! ## Exchanges -/

/-- `exchange_bind`; `mem` says whether there is memory for the binding. -/
def exchangeBind (ex : ExchangeObj) (routingKey : Bytes) (q : QueueObj) (mem : Bool) :
    ExchangeObj × Int :=
  -- a binding of the same queue under the same key is not repeated
  if ex.bindings.any fun bd => bd.queue.id = q.id && bd.routingKey = routingKey then (ex, 0)
  else if mem then ({ ex with bindings := ex.bindings ++ [⟨routingKey, q⟩] }, 0)
  else (ex, -1)

def exchangeUnbindQueue (q : QueueObj) (ex : ExchangeObj) : ExchangeObj :=
  { ex with bindings := ex.bindings.swapFilter fun bd => bd.queue.id = q.id }

def bindingMatches (ex : ExchangeObj) (bd : BindingObj) (routingKey : Bytes) : Bool :=
  if ex.type = exchangeFanout then true
  else if ex.type = exchangeDirect then bd.routingKey = routingKey
  else if ex.type = exchangeTopic then exchangeTopicMatch bd.routingKey routingKey
  else false

/-- `exchange_route`: the queues of the matching bindings, each once. -/
def exchangeRoute (ex : ExchangeObj) (routingKey : Bytes) : List QueueObj :=
  (ex.bindings.filter fun bd => bindingMatches ex bd routingKey).foldl
    (fun targets bd =>
      if targets.any fun q => q.id = bd.queue.id then targets else targets ++ [bd.queue]) []

/-! ## The registries -/

variable {hash : Bytes → Nat}

/-- `struct beaver_broker` without its counters; `nextId` is an identity no object has yet.
`hash` is `hash_str` under the key of the process. -/
structure Registry (hash : Bytes → Nat) where
  queues : ChainMap hash QueueObj
  exchanges : ChainMap hash ExchangeObj
  nextId : Nat

def hashmapInitialBuckets : Nat := 16

theorem initialBuckets_pos : 0 < hashmapInitialBuckets := by decide

def brokerNew : Registry hash where
  queues := .empty hashmapInitialBuckets initialBuckets_pos
  exchanges := .empty hashmapInitialBuckets initialBuckets_pos
  nextId := 0

/-- Which allocations of a declare find memory: those for the object, for a larger bucket array
and for the entry. -/
structure Mem where
  object : Bool := true
  buckets : Bool := true
  entry : Bool := true

/-- `broker_vkey` of two buffers. -/
def objectKey (vhost name : Name) : Bytes := brokerVkey vhost.bytes name.bytes

def brokerDeclareQueue (r : Registry hash) (vhost name : Name) (flags : UInt8) (mem : Mem) :
    Registry hash × Int :=
  match r.queues.get (objectKey vhost name) with
  | some q => (r, if q.flags ≠ flags then -2 else 0)
  | none =>
    if mem.object then
      let (queues, ok) :=
        r.queues.put (objectKey vhost name) ⟨r.nextId, name, flags⟩ mem.buckets mem.entry
      ({ r with queues, nextId := r.nextId + 1 }, if ok then 0 else -1)
    else (r, -1)

def brokerDeclareExchange (r : Registry hash) (vhost name : Name) (type : Nat) (flags : UInt8)
    (mem : Mem) : Registry hash × Int :=
  match r.exchanges.get (objectKey vhost name) with
  | some ex => (r, if ex.type ≠ type ∨ ex.flags ≠ flags then -2 else 0)
  | none =>
    if mem.object then
      let (exchanges, ok) :=
        r.exchanges.put (objectKey vhost name) { type, flags } mem.buckets mem.entry
      ({ r with exchanges }, if ok then 0 else -1)
    else (r, -1)

def brokerBind (r : Registry hash) (vhost queue exchange routingKey : Name) (mem : Bool) :
    Registry hash × Int :=
  match r.exchanges.get (objectKey vhost exchange), r.queues.get (objectKey vhost queue) with
  | some ex, some q =>
    let (ex', rc) := exchangeBind ex routingKey.bytes q mem
    ({ r with exchanges := r.exchanges.modify (objectKey vhost exchange) fun _ => ex' }, rc)
  | _, _ => (r, -1)

/-- The checks of `broker_delete_queue`: the queue to delete, or the return code. -/
def deleteTarget (r : Registry hash) (vhost name : Name) (ifUnused ifEmpty : Bool)
    (consumers depth : Nat) : Except Int QueueObj :=
  match r.queues.get (objectKey vhost name) with
  | none => .error (-1)
  | some q =>
    if ifUnused && 0 < consumers then .error (-2)
    else if ifEmpty && 0 < depth then .error (-3)
    else .ok q

/-- The targets `broker_route` collects; `mem` says whether there is memory for the array. -/
def routeTargets (r : Registry hash) (vhost exchange routingKey : Name) (mem : Bool) :
    List QueueObj :=
  if !mem then []
  else if exchange.bytes = [] then (r.queues.get (objectKey vhost routingKey)).toList
  else
    match r.exchanges.get (objectKey vhost exchange) with
    | none => []
    | some ex => exchangeRoute ex routingKey.bytes

/-! ## Threads -/

inductive Call
  | declareQueue (vhost name : Name) (flags : UInt8) (mem : Mem)
  | declareExchange (vhost name : Name) (type : Nat) (flags : UInt8) (mem : Mem)
  | bind (vhost queue exchange routingKey : Name) (mem : Bool)
  | deleteQueue (vhost name : Name) (ifUnused ifEmpty : Bool) (consumers depth : Nat)
  | route (vhost exchange routingKey : Name) (mem : Bool)

/-- What the callers check before they call. -/
def Call.checked : Call → Bool
  | .declareQueue vhost name _ _ | .declareExchange vhost name _ _ _ =>
    Amqp.nameOk vhost.bytes && Amqp.nameOk name.bytes
  | .bind vhost queue exchange _ _ =>
    Amqp.nameOk vhost.bytes && Amqp.nameOk queue.bytes && Amqp.nameOk exchange.bytes
  | .deleteQueue .. | .route .. => true

def Call.writes : Call → Bool
  | .route .. => false
  | _ => true

/-- Where a thread is in a call. -/
inductive Phase
  | idle
  /-- Before `pthread_rwlock_wrlock` or `pthread_rwlock_rdlock`. -/
  | waiting (c : Call)
  | inside (c : Call)
  /-- `broker_delete_queue` in `hashmap_iter`, with the exchanges still to visit. -/
  | unbinding (key : Bytes) (q : QueueObj) (rest : List Bytes)
  /-- Before the unlock, with the targets of a route. -/
  | leaving (rc : Int) (targets : List QueueObj)
  /-- `broker_route` after the unlock: it enqueues to what it holds references to. -/
  | enqueueing (targets : List QueueObj)

/-- All threads and the lock. `deleted` records the queues `broker_delete_queue` has taken out
of the registry. -/
structure Machine (hash : Bytes → Nat) where
  reg : Registry hash
  writer : Option Nat := none
  readers : List Nat := []
  threads : Nat → Phase := fun _ => .idle
  deleted : List Nat := []

def Machine.set (m : Machine hash) (i : Nat) (p : Phase) : Machine hash :=
  { m with threads := Function.update m.threads i p }

def Machine.lock (m : Machine hash) (i : Nat) (c : Call) : Option (Machine hash) :=
  if c.writes then
    if m.writer = none ∧ m.readers = [] then some { m.set i (.inside c) with writer := some i }
    else none
  else if m.writer = none then some { m.set i (.inside c) with readers := i :: m.readers }
  else none

/-- The call's work under the lock; a delete that goes on begins its walk. -/
def Machine.perform (m : Machine hash) (i : Nat) : Call → Machine hash
  | .declareQueue vhost name flags mem =>
    let (reg, rc) := brokerDeclareQueue m.reg vhost name flags mem
    { m.set i (.leaving rc []) with reg }
  | .declareExchange vhost name type flags mem =>
    let (reg, rc) := brokerDeclareExchange m.reg vhost name type flags mem
    { m.set i (.leaving rc []) with reg }
  | .bind vhost queue exchange routingKey mem =>
    let (reg, rc) := brokerBind m.reg vhost queue exchange routingKey mem
    { m.set i (.leaving rc []) with reg }
  | .deleteQueue vhost name ifUnused ifEmpty consumers depth =>
    match deleteTarget m.reg vhost name ifUnused ifEmpty consumers depth with
    | .error rc => m.set i (.leaving rc [])
    | .ok q => m.set i (.unbinding (objectKey vhost name) q m.reg.exchanges.keys)
  | .route vhost exchange routingKey mem =>
    m.set i (.leaving 0 (routeTargets m.reg vhost exchange routingKey mem))

/-- `unbind_queue_cb` on the next exchange, and `hashmap_remove` after the last. -/
def Machine.unbind (m : Machine hash) (i : Nat) (key : Bytes) (q : QueueObj) :
    List Bytes → Machine hash
  | k :: rest =>
    { m.set i (.unbinding key q rest) with
      reg := { m.reg with exchanges := m.reg.exchanges.modify k (exchangeUnbindQueue q) } }
  | [] =>
    { m.set i (.leaving 0 []) with
      reg := { m.reg with queues := m.reg.queues.remove key }, deleted := q.id :: m.deleted }

inductive Event
  /-- A request gets to its call of the broker. -/
  | call (i : Nat) (c : Call)
  /-- A thread takes its next step. -/
  | run (i : Nat)

def step (m : Machine hash) : Event → Option (Machine hash)
  | .call i c =>
    match m.threads i with
    | .idle => if c.checked then some (m.set i (.waiting c)) else none
    | _ => none
  | .run i =>
    match m.threads i with
    | .idle => none
    | .waiting c => m.lock i c
    | .inside c => some (m.perform i c)
    | .unbinding key q rest => some (m.unbind i key q rest)
    | .leaving _ targets =>
      some { m.set i (if targets = [] then .idle else .enqueueing targets) with
        writer := if m.writer = some i then none else m.writer
        readers := m.readers.erase i }
    | .enqueueing _ => some (m.set i .idle)

/-- The broker as `broker_new` makes it. -/
def start (hash : Bytes → Nat) : Machine hash := { reg := brokerNew }

end BeaverMQ.Objects
