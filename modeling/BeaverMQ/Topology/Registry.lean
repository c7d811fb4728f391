import BeaverMQ.Model.Clients
import BeaverMQ.Queues.Routing

/-!
# BeaverMQ — the registries as lookups see them

The queue and exchange registries and the access-control tables are hash tables and arrays in
the source; what matters of them is what a lookup returns. `Topology` is that view, with one
operation for each op of the log, and `topology_applyOp` says that `apply_op` follows it.
-/

namespace BeaverMQ

open Function

/-! ## What a payload says -/

/-- The queue that a declaration makes. -/
def QueueDecl.queue (d : QueueDecl) (gen : Nat) : Queue where
  vhost := d.vhost
  name := d.name
  flags := d.flags
  gen := gen
  maxLength := d.maxLength
  maxBytes := d.maxBytes
  overflow := d.overflow
  dlExchange := d.dlExchange
  dlRoutingKey := d.dlRoutingKey

def Queue.decl (q : Queue) : QueueDecl where
  vhost := q.vhost
  name := q.name
  flags := q.flags
  maxLength := q.maxLength
  maxBytes := q.maxBytes
  overflow := q.overflow
  dlExchange := q.dlExchange
  dlRoutingKey := q.dlRoutingKey

/-- The limits behind a declare; a short or torn tail changes nothing. -/
def readPolicy (d : QueueDecl) (p : Bytes) : QueueDecl :=
  if 17 ≤ p.length then
    let (overflow, p) := rd8 p
    match rdStr (p.drop 16) with
    | none => d
    | some (dlx, rest) =>
      match rdStr rest with
      | none => d
      | some (dlxRkey, _) =>
        { d with
          maxLength := Bytes.beVal (p.take 8)
          maxBytes := Bytes.beVal ((p.drop 8).take 8)
          overflow := if overflow = 1 then .dropHead else .rejectPublish
          dlExchange := dlx
          dlRoutingKey := if dlx = [] then [] else dlxRkey }
  else d

def readQueueDecl (p : Bytes) : Option QueueDecl := do
  let (flags, p) := rd8 p
  let (vhost, p) ← rdStr p
  let (name, p) ← rdStr p
  return readPolicy { vhost, name, flags } p

def ExchangeDecl.exchange (d : ExchangeDecl) : Exchange where
  vhost := d.vhost
  name := d.name
  type := d.type
  flags := d.flags

def readExchange (p : Bytes) : Option ExchangeDecl := do
  let (type, p) := rd8 p
  let (flags, p) := rd8 p
  let (vhost, p) ← rdStr p
  let (name, _) ← rdStr p
  return { vhost, name, type, flags }

def readPair (p : Bytes) : Option (Bytes × Bytes) := do
  let (a, p) ← rdStr p
  let (b, _) ← rdStr p
  return (a, b)

def readBind (p : Bytes) : Option BindReq := do
  let (vhost, p) ← rdStr p
  let (queue, p) ← rdStr p
  let (exchange, p) ← rdStr p
  let (routingKey, _) ← rdStr p
  return { vhost, queue, exchange, routingKey }

def readPublish (index : Nat) (p : Bytes) : Option (Bytes × Msg) := do
  let (vhost, p) ← rdStr p
  let (exchange, p) ← rdStr p
  let (routingKey, p) ← rdStr p
  let (props, p) ← rdBlock p
  let (body, _) ← rdBlock p
  return (vhost, { exchange, routingKey, props, body, clusterId := index })

def readAck (p : Bytes) : Option (Bytes × Nat) := do
  let (vhost, p) ← rdStr p
  let (name, p) ← rdStr p
  if p.length < 8 then none else return (vkey vhost name, Bytes.beVal (p.take 8))

/-! ## Queues -/

section Queues

variable {b : Broker} {p : Bytes}

theorem updQueue_insert (b : Broker) (key : Bytes) (q : Queue) (f : Queue → Queue) :
    ({ b with queues := b.queues.insert key q } : Broker).updQueue key f =
      { b with queues := b.queues.insert key (f q) } := by
  unfold Broker.updQueue Table.modify
  dsimp only
  rw [Table.get_insert, if_pos rfl]
  dsimp only
  rw [AList.insert_insert]

theorem brokerDeclareQueue_old {vhost name : Bytes} {q : Queue}
    (hGet : b.queues.get (vkey vhost name) = some q) (flags : Nat) :
    brokerDeclareQueue b vhost name flags = (b, false) := by
  unfold brokerDeclareQueue
  dsimp only
  rw [hGet]

theorem brokerDeclareQueue_new {vhost name : Bytes}
    (hGet : b.queues.get (vkey vhost name) = none) (flags : Nat) :
    brokerDeclareQueue b vhost name flags =
      ({ b with queues := b.queues.insert (vkey vhost name) { vhost, name, flags, gen := b.nextGen }
                nextGen := b.nextGen + 1 }, true) := by
  unfold brokerDeclareQueue
  dsimp only
  rw [hGet]

theorem brokerDeclareWith_eq (b : Broker) (d : QueueDecl) :
    brokerDeclareWith b d =
      match b.queues.get d.key with
      | some _ => b
      | none => { b with queues := b.queues.insert d.key (d.queue b.nextGen)
                         nextGen := b.nextGen + 1 } := by
  unfold brokerDeclareWith
  rcases Option.eq_none_or_eq_some (b.queues.get d.key) with hGet | ⟨q, hGet⟩
  · rw [hGet, brokerDeclareQueue_new hGet]
    exact updQueue_insert { b with nextGen := b.nextGen + 1 } d.key _ _
  · rw [hGet, brokerDeclareQueue_old hGet]

/-- **A declare reads its payload first**, whatever the broker holds. -/
theorem applyDeclareQueue_read :
    applyDeclareQueue b p = (readQueueDecl p).elim b (brokerDeclareWith b) := by
  unfold applyDeclareQueue readQueueDecl
  dsimp only
  obtain h₁ | ⟨⟨vh, p₁⟩, h₁⟩ := Option.eq_none_or_eq_some (rdStr (rd8 p).2)
  · rw [h₁]
    rfl
  rw [h₁, Option.bind_eq_bind, Option.bind_some]
  dsimp only
  obtain h₂ | ⟨⟨name, p₂⟩, h₂⟩ := Option.eq_none_or_eq_some (rdStr p₁)
  · rw [h₂]
    rfl
  rw [h₂, Option.bind_some]
  dsimp only
  have hKey : (readPolicy { vhost := vh, name, flags := (rd8 p).1 } p₂).key = vkey vh name := by
    unfold readPolicy
    split
    · dsimp only
      split
      · rfl
      · split <;> rfl
    · rfl
  rw [Option.pure_def, Option.elim_some, brokerDeclareWith_eq, hKey]
  rcases Option.eq_none_or_eq_some (b.queues.get (vkey vh name)) with hGet | ⟨q, hGet⟩
  · -- the new queue first has the default policy, then the one that was read
    rw [brokerDeclareQueue_new hGet, hGet]
    dsimp only
    unfold readPolicy
    by_cases hLen : 17 ≤ p₂.length
    · rw [if_pos hLen, if_pos (by simpa using hLen)]
      dsimp only
      cases rdStr (List.drop 16 (rd8 p₂).2) with
      | none => rfl
      | some r =>
        dsimp only
        cases rdStr r.2 with
        | none => rfl
        | some r' => exact updQueue_insert { b with nextGen := b.nextGen + 1 } _ _ _
    · rw [if_neg hLen, if_neg (by simpa using hLen)]
      rfl
  · rw [brokerDeclareQueue_old hGet, hGet]
    rfl

end Queues

/-! ## The view -/

/-- What lookups see of the broker and the authstore. -/
@[ext]
structure Topology where
  queues : Bytes → Option QueueDecl
  exchanges : Bytes → Option Exchange
  vhosts : Finset Bytes
  users : Bytes → Option User
  perms : Bytes × Bytes → Option Perm

def Applied.topology (s : Applied) : Topology where
  queues := fun key => (s.broker.queues.get key).map Queue.decl
  exchanges := s.broker.exchanges.get
  vhosts := s.auth.vhosts
  users := s.auth.users.get
  perms := s.auth.perms.get

namespace Topology

variable (t : Topology)

/-- The first declaration stays. -/
def declareQueue (d : QueueDecl) : Topology :=
  match t.queues d.key with
  | some _ => t
  | none => { t with queues := update t.queues d.key (some d) }

/-- The bindings go with the queue. -/
def deleteQueue (key : Bytes) : Topology :=
  match t.queues key with
  | none => t
  | some _ => { t with queues := update t.queues key none
                       exchanges := fun k => (t.exchanges k).map (exchangeUnbindQueue · key) }

def declareExchange (d : ExchangeDecl) : Topology :=
  match t.exchanges d.key with
  | some _ => t
  | none => { t with exchanges := update t.exchanges d.key (some d.exchange) }

def declareDefaults (vhost : Bytes) : Topology :=
  ((t.declareExchange { vhost, name := amqDirect, type := exchangeDirect, flags := 0 }
    ).declareExchange { vhost, name := amqFanout, type := exchangeFanout, flags := 0 }
    ).declareExchange { vhost, name := amqTopic, type := exchangeTopic, flags := 0 }

def bind (r : BindReq) : Topology :=
  let ekey := vkey r.vhost r.exchange
  let qkey := vkey r.vhost r.queue
  match t.exchanges ekey, t.queues qkey with
  | some ex, some _ =>
    let ex := exchangeBind ex r.routingKey qkey
    { t with exchanges := update t.exchanges ekey (some ex) }
  | _, _ => t

def addVhost (vhost : Bytes) : Topology :=
  (if tooLong vhost authstoreNameMax then t else { t with vhosts := insert vhost t.vhosts }
    ).declareDefaults vhost

def delVhost (vhost : Bytes) : Topology :=
  if vhost ∈ t.vhosts then
    { t with vhosts := t.vhosts.erase vhost
             perms := fun k => if k.2 ≠ vhost then t.perms k else none }
  else t

def addUser (user hash : Bytes) (tags : Nat) : Topology :=
  if tooLong user authstoreNameMax || tooLong hash authstoreHashMax then t
  else { t with users := update t.users user (some { hash, tags }) }

def delUser (user : Bytes) : Topology :=
  match t.users user with
  | some _ => { t with users := update t.users user none
                       perms := fun k => if k.1 ≠ user then t.perms k else none }
  | none => t

def setPerm (user vhost conf wr rd : Bytes) : Topology :=
  if tooLong user authstoreNameMax || tooLong vhost authstoreNameMax ||
      tooLong conf authstoreRegexMax || tooLong wr authstoreRegexMax ||
      tooLong rd authstoreRegexMax then t
  else { t with perms := update t.perms (user, vhost) (some { conf, wr, rd }) }

def clearPerm (user vhost : Bytes) : Topology :=
  { t with perms := update t.perms (user, vhost) none }

end Topology

def readUser (p : Bytes) : Option (Bytes × Bytes × Nat) := do
  let (user, p) ← rdStr p
  let (hash, p) ← rdStr p
  return (user, hash, (rd32 p).1)

structure PermReq where
  user : Bytes
  vhost : Bytes
  conf : Bytes
  wr : Bytes
  rd : Bytes

def readPerm (p : Bytes) : Option PermReq := do
  let (user, p) ← rdStr p
  let (vhost, p) ← rdStr p
  let (conf, p) ← rdStr p
  let (wr, p) ← rdStr p
  let (rd, _) ← rdStr p
  return { user, vhost, conf, wr, rd }

/-- What an op does to the view; messages are not in it. -/
def Topology.apply (t : Topology) (op : ClOp) (p : Bytes) : Topology :=
  match op with
  | .noop | .publish | .ack => t
  | .declareQueue => (readQueueDecl p).elim t t.declareQueue
  | .declareExch => (readExchange p).elim t t.declareExchange
  | .bind => (readBind p).elim t t.bind
  | .deleteQueue => (readPair p).elim t fun x => t.deleteQueue (vkey x.1 x.2)
  | .addVhost => (rdStr p).elim t fun x => t.addVhost x.1
  | .delVhost => (rdStr p).elim t fun x => t.delVhost x.1
  | .addUser => (readUser p).elim t fun x => t.addUser x.1 x.2.1 x.2.2
  | .delUser => (rdStr p).elim t fun x => t.delUser x.1
  | .setPerm => (readPerm p).elim t fun x => t.setPerm x.user x.vhost x.conf x.wr x.rd
  | .clearPerm => (readPair p).elim t fun x => t.clearPerm x.1 x.2

def Topology.step (t : Topology) (r : TopoRec) : Topology :=
  match ClOp.ofCode r.op with
  | none => t
  | some op => t.apply op r.data

def Topology.Keyed (t : Topology) : Prop := ∀ key d, t.queues key = some d → d.key = key

theorem Topology.apply_queues (t : Topology) (op : ClOp) (p : Bytes)
    (hDeclare : op ≠ .declareQueue) (hDelete : op ≠ .deleteQueue) :
    (t.apply op p).queues = t.queues := by
  have hExchange : ∀ (t : Topology) d, (t.declareExchange d).queues = t.queues := by
    intro t d
    unfold declareExchange
    split <;> rfl
  have hRead : ∀ {α : Type} (o : Option α) {f : α → Topology}, (∀ x, (f x).queues = t.queues) →
      (o.elim t f).queues = t.queues := by
    intro α o f hf
    cases o with
    | none => rfl
    | some x => exact hf x
  cases op with
  | declareQueue => exact absurd rfl hDeclare
  | deleteQueue => exact absurd rfl hDelete
  | noop | publish | ack => rfl
  | _ =>
    refine hRead _ fun x => ?_
    simp only [hExchange, bind, addVhost, declareDefaults, delVhost, addUser, delUser, setPerm,
      clearPerm]
    try split <;> rfl

theorem Topology.Keyed.apply {t : Topology} (hKeyed : t.Keyed) (op : ClOp) (p : Bytes) :
    (t.apply op p).Keyed := by
  -- only these two ops change which queues there are
  by_cases hDeclare : op = .declareQueue
  · subst hDeclare
    unfold Topology.apply
    cases readQueueDecl p with
    | none => exact hKeyed
    | some d =>
      simp only [Option.elim_some, declareQueue]
      split
      · exact hKeyed
      intro key d' hGet
      by_cases hKey : key = d.key
      · subst hKey
        simp only [update_self, Option.some.injEq] at hGet
        rw [hGet]
      · simp only [update_of_ne hKey] at hGet
        exact hKeyed key d' hGet
  · by_cases hDelete : op = .deleteQueue
    · subst hDelete
      unfold Topology.apply
      cases readPair p with
      | none => exact hKeyed
      | some x =>
        simp only [Option.elim_some, deleteQueue]
        split
        · exact hKeyed
        intro key d' hGet
        by_cases hKey : key = vkey x.1 x.2
        · subst hKey
          simp at hGet
        · simp only [update_of_ne hKey] at hGet
          exact hKeyed key d' hGet
    · intro key d hGet
      rw [t.apply_queues op p hDeclare hDelete] at hGet
      exact hKeyed key d hGet

theorem Topology.Keyed.step {t : Topology} (hKeyed : t.Keyed) (r : TopoRec) : (t.step r).Keyed := by
  unfold Topology.step
  split
  · exact hKeyed
  · exact hKeyed.apply _ _

/-! ## Refinement -/

section Refinement

variable (s : Applied) (p : Bytes)

theorem applyDeclareExch_eq (b : Broker) :
    applyDeclareExch b p = (readExchange p).elim b
      fun d => brokerDeclareExchange b d.vhost d.name d.type d.flags := by
  unfold applyDeclareExch readExchange
  repeat' split
  all_goals simp_all

theorem applyBind_eq (b : Broker) :
    applyBind b p = (readBind p).elim b
      fun r => brokerBind b r.vhost r.queue r.exchange r.routingKey := by
  unfold applyBind readBind
  repeat' split
  all_goals simp_all

theorem applyDeleteQueue_eq (b : Broker) :
    applyDeleteQueue b p = (readPair p).elim b fun x => brokerDeleteQueue b x.1 x.2 := by
  unfold applyDeleteQueue readPair
  repeat' split
  all_goals simp_all

theorem applyPublish_eq (b : Broker) (index : Nat) :
    applyPublish b index p = (readPublish index p).elim b fun x => brokerRoute b x.1 x.2 := by
  unfold applyPublish readPublish
  repeat' split
  all_goals simp_all

theorem applyAck_eq (b : Broker) :
    applyAck b p = (readAck p).elim b fun x => b.updQueue x.1 (queueDrainConsumed · x.2) := by
  unfold applyAck readAck
  repeat' split
  all_goals simp [*]

theorem applyAddUser_eq (a : AuthStore) :
    applyAddUser a p = (readUser p).elim a fun x => authstoreAddUser a x.1 x.2.1 x.2.2 := by
  unfold applyAddUser readUser
  repeat' split
  all_goals simp_all

theorem applySetPerm_eq (a : AuthStore) :
    applySetPerm a p = (readPerm p).elim a
      fun r => authstoreSetPerm a r.user r.vhost r.conf r.wr r.rd := by
  unfold applySetPerm readPerm
  repeat' split
  all_goals simp_all

theorem applyClearPerm_eq (a : AuthStore) :
    applyClearPerm a p = (readPair p).elim a fun x => authstoreClearPerm a x.1 x.2 := by
  unfold applyClearPerm readPair
  repeat' split
  all_goals simp_all

theorem topology_queues (s : Applied) (key : Bytes) :
    s.topology.queues key = (s.broker.queues.get key).map Queue.decl := rfl

theorem topology_declareWith (d : QueueDecl) :
    ({ s with broker := brokerDeclareWith s.broker d } : Applied).topology =
      s.topology.declareQueue d := by
  rw [brokerDeclareWith_eq, Topology.declareQueue, topology_queues]
  cases hGet : s.broker.queues.get d.key with
  | some q => rfl
  | none =>
    refine Topology.ext (funext fun key => ?_) rfl rfl rfl rfl
    rw [topology_queues, Table.get_insert]
    by_cases hKey : key = d.key
    · subst hKey
      simp [Queue.decl, QueueDecl.queue]
    · simp [hKey, topology_queues]

theorem topology_deleteQueue (vhost name : Bytes) :
    ({ s with broker := brokerDeleteQueue s.broker vhost name } : Applied).topology =
      s.topology.deleteQueue (vkey vhost name) := by
  unfold brokerDeleteQueue Topology.deleteQueue
  rw [topology_queues]
  dsimp only
  cases hGet : s.broker.queues.get (vkey vhost name) with
  | none => rfl
  | some q =>
    refine Topology.ext (funext fun key => ?_) (funext fun key => ?_) rfl rfl rfl
    · rw [topology_queues, Table.get_erase]
      by_cases hKey : key = vkey vhost name
      · subst hKey
        simp
      · simp [hKey, topology_queues]
    · exact Table.get_mapVal _ _ _

theorem topology_declareExchange (vhost name : Bytes) (type flags : Nat) :
    ({ s with broker := brokerDeclareExchange s.broker vhost name type flags } : Applied).topology =
      s.topology.declareExchange { vhost, name, type, flags } := by
  unfold brokerDeclareExchange Topology.declareExchange ExchangeDecl.key
  dsimp only
  rw [show s.topology.exchanges = s.broker.exchanges.get from rfl]
  cases hGet : s.broker.exchanges.get (vkey vhost name) with
  | some ex => rfl
  | none =>
    exact Topology.ext rfl (Table.get_insert_eq _ _ _) rfl rfl rfl

theorem topology_declareDefaults (vhost : Bytes) :
    ({ s with broker := brokerDeclareDefaultExchanges s.broker vhost } : Applied).topology =
      s.topology.declareDefaults vhost := by
  unfold brokerDeclareDefaultExchanges Topology.declareDefaults
  dsimp only
  rw [topology_declareExchange { s with broker := brokerDeclareExchange _ _ _ _ _ },
    topology_declareExchange { s with broker := brokerDeclareExchange _ _ _ _ _ },
    topology_declareExchange]

theorem topology_bind (r : BindReq) :
    ({ s with broker := brokerBind s.broker r.vhost r.queue r.exchange r.routingKey } :
      Applied).topology = s.topology.bind r := by
  unfold brokerBind Topology.bind
  dsimp only
  rw [topology_queues, show s.topology.exchanges = s.broker.exchanges.get from rfl]
  cases hEx : s.broker.exchanges.get (vkey r.vhost r.exchange) with
  | none => rfl
  | some ex =>
    cases hQ : s.broker.queues.get (vkey r.vhost r.queue) with
    | none => rfl
    | some q =>
      exact Topology.ext rfl (Table.get_insert_eq _ _ _) rfl rfl rfl

theorem queueEnqueue_decl {b : Broker} {q q' : Queue} {m : Msg} {out : List Msg}
    (hEnq : queueEnqueue b q m = some (q', out)) : q'.decl = q.decl := by
  obtain ⟨kept, -, rfl⟩ := queueEnqueue_queue hEnq
  rfl

/-- A queue may change as long as its declaration stays. -/
theorem updQueue_declared {b : Broker} {key : Bytes} {q q' : Queue}
    (hGet : b.queues.get key = some q) (hDecl : q'.decl = q.decl) (k : Bytes) :
    ((b.updQueue key fun _ => q').queues.get k).map Queue.decl =
      (b.queues.get k).map Queue.decl := by
  unfold Broker.updQueue
  rw [Table.get_modify]
  by_cases hKey : k = key
  · subst hKey
    rw [if_pos rfl, hGet]
    exact congrArg some hDecl
  · rw [if_neg hKey]

theorem brokerRoute_topology (vhost : Bytes) (m : Msg) :
    ({ s with broker := brokerRoute s.broker vhost m } : Applied).topology = s.topology := by
  have hKept : ∀ key, ((brokerRoute s.broker vhost m).queues.get key).map Queue.decl =
      (s.broker.queues.get key).map Queue.decl ∧
      (brokerRoute s.broker vhost m).exchanges = s.broker.exchanges := by
    intro k
    refine brokerRoute_induct (P := fun b => (b.queues.get k).map Queue.decl =
      (s.broker.queues.get k).map Queue.decl ∧ b.exchanges = s.broker.exchanges) ?_
      s.broker vhost m ⟨rfl, rfl⟩
    intro b key q q' m out hP hGet hEnq
    exact ⟨(updQueue_declared hGet (queueEnqueue_decl hEnq) k).trans hP.1, hP.2⟩
  refine Topology.ext (funext fun key => (hKept key).1) ?_ rfl rfl rfl
  exact congrArg Table.get (hKept []).2

theorem topology_publish (index : Nat) :
    ({ s with broker := applyPublish s.broker index p } : Applied).topology = s.topology := by
  rw [applyPublish_eq]
  cases readPublish index p with
  | none => rfl
  | some x => exact brokerRoute_topology s _ _

theorem topology_ack :
    ({ s with broker := applyAck s.broker p } : Applied).topology = s.topology := by
  rw [applyAck_eq]
  cases readAck p with
  | none => rfl
  | some x =>
    refine Topology.ext (funext fun key => ?_) rfl rfl rfl rfl
    rw [topology_queues, topology_queues, Option.elim_some]
    unfold Broker.updQueue
    rw [Table.get_modify]
    split
    · rename_i hKey
      subst hKey
      rw [Option.map_map]
      rfl
    · rfl

/-! The access-control tables. -/

theorem topology_addVhost (vhost : Bytes) :
    ({ s with auth := authstoreAddVhost s.auth vhost
              broker := brokerDeclareDefaultExchanges s.broker vhost } : Applied).topology =
      s.topology.addVhost vhost := by
  rw [topology_declareDefaults { s with auth := authstoreAddVhost s.auth vhost }]
  unfold authstoreAddVhost Topology.addVhost
  split <;> rfl

theorem topology_delVhost (vhost : Bytes) :
    ({ s with auth := authstoreDelVhost s.auth vhost } : Applied).topology =
      s.topology.delVhost vhost := by
  unfold authstoreDelVhost Topology.delVhost
  rw [show s.topology.vhosts = s.auth.vhosts from rfl]
  split
  · refine Topology.ext rfl rfl rfl rfl (funext fun k => ?_)
    refine (Table.get_filter _ _ _).trans ?_
    simp [Applied.topology]
  · rfl

theorem topology_addUser (user hash : Bytes) (tags : Nat) :
    ({ s with auth := authstoreAddUser s.auth user hash tags } : Applied).topology =
      s.topology.addUser user hash tags := by
  unfold authstoreAddUser Topology.addUser
  split
  · rfl
  exact Topology.ext rfl rfl rfl (Table.get_insert_eq _ _ _) rfl

theorem topology_delUser (user : Bytes) :
    ({ s with auth := authstoreDelUser s.auth user } : Applied).topology =
      s.topology.delUser user := by
  unfold authstoreDelUser Topology.delUser
  rw [show s.topology.users = s.auth.users.get from rfl]
  cases hGet : s.auth.users.get user with
  | none => rfl
  | some u =>
    refine Topology.ext rfl rfl rfl (Table.get_erase_eq _ _) (funext fun k => ?_)
    refine (Table.get_filter _ _ _).trans ?_
    simp [Applied.topology]

theorem topology_setPerm (r : PermReq) :
    ({ s with auth := authstoreSetPerm s.auth r.user r.vhost r.conf r.wr r.rd } :
      Applied).topology = s.topology.setPerm r.user r.vhost r.conf r.wr r.rd := by
  unfold authstoreSetPerm Topology.setPerm
  split
  · rfl
  exact Topology.ext rfl rfl rfl rfl (Table.get_insert_eq _ _ _)

theorem topology_clearPerm (user vhost : Bytes) :
    ({ s with auth := authstoreClearPerm s.auth user vhost } : Applied).topology =
      s.topology.clearPerm user vhost :=
  Topology.ext rfl rfl rfl rfl (Table.get_erase_eq _ _)

/-- **The view after an op is the op on the view.** -/
theorem topology_applySwitch (index : Nat) (op : ClOp) :
    (applySwitch s index op p).topology = s.topology.apply op p := by
  have hBroker : ∀ {α : Type} (o : Option α) {f : α → Broker} {g : α → Topology},
      (∀ x, ({ s with broker := f x } : Applied).topology = g x) →
      ({ s with broker := o.elim s.broker f } : Applied).topology = o.elim s.topology g := by
    intro α o f g hSome
    cases o with
    | none => rfl
    | some x => exact hSome x
  have hAuth : ∀ {α : Type} (o : Option α) {f : α → AuthStore} {g : α → Topology},
      (∀ x, ({ s with auth := f x } : Applied).topology = g x) →
      ({ s with auth := o.elim s.auth f } : Applied).topology = o.elim s.topology g := by
    intro α o f g hSome
    cases o with
    | none => rfl
    | some x => exact hSome x
  cases op with
  | noop => rfl
  | publish => exact topology_publish s p index
  | ack => exact topology_ack s p
  | declareQueue =>
    rw [applySwitch, applyDeclareQueue_read]
    exact hBroker _ fun d => topology_declareWith s d
  | declareExch =>
    rw [applySwitch, applyDeclareExch_eq]
    exact hBroker _ fun d => topology_declareExchange s _ _ _ _
  | bind =>
    rw [applySwitch, applyBind_eq]
    exact hBroker _ fun r => topology_bind s r
  | deleteQueue =>
    rw [applySwitch, applyDeleteQueue_eq]
    exact hBroker _ fun x => topology_deleteQueue s _ _
  | addUser =>
    rw [applySwitch, applyAddUser_eq]
    exact hAuth _ fun x => topology_addUser s _ _ _
  | setPerm =>
    rw [applySwitch, applySetPerm_eq]
    exact hAuth _ fun r => topology_setPerm s r
  | clearPerm =>
    rw [applySwitch, applyClearPerm_eq]
    exact hAuth _ fun x => topology_clearPerm s _ _
  | addVhost | delVhost | delUser =>
    simp only [applySwitch, Topology.apply]
    cases rdStr p with
    | none => rfl
    | some x => simp only [Option.elim_some, topology_addVhost, topology_delVhost, topology_delUser]

theorem topology_applyOp (index op : Nat) :
    (applyOp s index op p).topology = s.topology.step ⟨op, p⟩ := by
  unfold applyOp Topology.step
  cases ClOp.ofCode op with
  | none => rfl
  | some cop =>
    dsimp only
    split <;> exact topology_applySwitch s p index cop

end Refinement

end BeaverMQ
