import BeaverMQ.Topology.Replay

/-!
# BeaverMQ — one queue seen from outside

The declaration and the ready messages under a registry key, and what each op of the topology
does to them. Every such op acts on each key by itself.
-/

namespace BeaverMQ

def Broker.viewQ (b : Broker) (key : Bytes) : Option (QueueDecl × List Msg) :=
  (b.queues.get key).map fun q => (q.decl, q.ready)

theorem viewQ_eq_some {b : Broker} {key : Bytes} {q : Queue} (hGet : b.queues.get key = some q) :
    b.viewQ key = some (q.decl, q.ready) := by
  unfold Broker.viewQ
  rw [hGet]
  rfl

/-- The queue under `key` that a record declares. -/
def TopoRec.declares (r : TopoRec) (key : Bytes) : Option QueueDecl :=
  match ClOp.ofCode r.op with
  | some .declareQueue => (readQueueDecl r.data).filter fun d => d.key = key
  | _ => none

def TopoRec.deletes (r : TopoRec) (key : Bytes) : Bool :=
  match ClOp.ofCode r.op with
  | some .deleteQueue => (readPair r.data).any fun x => vkey x.1 x.2 = key
  | _ => false

/-- What a record of the accumulator does to the queue under `key`. -/
def TopoRec.onQueue (key : Bytes) (o : Option (QueueDecl × List Msg)) (r : TopoRec) :
    Option (QueueDecl × List Msg) :=
  match o with
  | some x => if r.deletes key then none else some x
  | none => (r.declares key).map fun d => (d, [])

theorem queues_declareExchange (b : Broker) (vhost name : Bytes) (type flags : Nat) :
    (brokerDeclareExchange b vhost name type flags).queues = b.queues := by
  unfold brokerDeclareExchange
  dsimp only
  split <;> rfl

theorem queues_bind (b : Broker) (vhost queue exchange rkey : Bytes) :
    (brokerBind b vhost queue exchange rkey).queues = b.queues := by
  unfold brokerBind
  dsimp only
  split <;> rfl

theorem queues_declareDefaults (b : Broker) (vhost : Bytes) :
    (brokerDeclareDefaultExchanges b vhost).queues = b.queues := by
  unfold brokerDeclareDefaultExchanges
  dsimp only
  rw [queues_declareExchange, queues_declareExchange, queues_declareExchange]

/-- Ops that leave the queues alone. -/
theorem queues_applySwitch (s : Applied) (index : Nat) {op : ClOp} (p : Bytes)
    (hOp : op ∉ [.declareQueue, .deleteQueue, .publish, .ack]) :
    (applySwitch s index op p).broker.queues = s.broker.queues := by
  cases op with
  | declareQueue | deleteQueue | publish | ack => simp at hOp
  | noop | addUser | setPerm | clearPerm => rfl
  | declareExch =>
    rw [applySwitch, applyDeclareExch_eq]
    cases readExchange p with
    | none => rfl
    | some d => exact queues_declareExchange ..
  | bind =>
    rw [applySwitch, applyBind_eq]
    cases readBind p with
    | none => rfl
    | some r => exact queues_bind ..
  | addVhost =>
    rw [applySwitch]
    split
    · rfl
    · exact queues_declareDefaults _ _
  | delVhost | delUser =>
    rw [applySwitch]
    split <;> rfl

theorem viewQ_congr {b b' : Broker} (hQueues : b'.queues = b.queues) (key : Bytes) :
    b'.viewQ key = b.viewQ key := by
  unfold Broker.viewQ
  rw [hQueues]

theorem viewQ_applyDeclareQueue (b : Broker) (p : Bytes) (key : Bytes) :
    (applyDeclareQueue b p).viewQ key =
      (b.viewQ key).or (((readQueueDecl p).filter fun d => d.key = key).map fun d => (d, [])) := by
  rw [applyDeclareQueue_read]
  cases readQueueDecl p with
  | none => simp
  | some d =>
    rw [Option.elim_some, brokerDeclareWith_eq]
    rcases Option.eq_none_or_eq_some (b.queues.get d.key) with hGet | ⟨q, hGet⟩
    · rw [hGet]
      unfold Broker.viewQ
      rw [Table.get_insert]
      by_cases hKey : key = d.key
      · subst hKey
        simp [hGet, QueueDecl.queue, Queue.decl]
      · simp [hKey, Option.filter, Ne.symm hKey]
    · rw [hGet]
      by_cases hKey : key = d.key
      · subst hKey
        rw [viewQ_eq_some hGet]
        rfl
      · simp [Option.filter, Ne.symm hKey]

theorem viewQ_brokerDeleteQueue (b : Broker) (vhost name key : Bytes) :
    (brokerDeleteQueue b vhost name).viewQ key =
      if vkey vhost name = key then none else b.viewQ key := by
  unfold brokerDeleteQueue Broker.viewQ
  dsimp only
  rcases Option.eq_none_or_eq_some (b.queues.get (vkey vhost name)) with hGet | ⟨q, hGet⟩
  · rw [hGet]
    by_cases hKey : vkey vhost name = key
    · rw [if_pos hKey, ← hKey, hGet]
      rfl
    · rw [if_neg hKey]
  rw [hGet]
  dsimp only
  rw [Table.get_erase]
  by_cases hKey : key = vkey vhost name
  · rw [if_pos hKey, if_pos hKey.symm]
    rfl
  · rw [if_neg hKey, if_neg (Ne.symm hKey)]

/-- A record acts on the queue under a key as `onQueue` says. -/
theorem viewQ_applyOp {r : TopoRec} (hKept : r.kept = true) (s : Applied) (index : Nat)
    (key : Bytes) :
    (applyOp s index r.op r.data).broker.viewQ key = r.onQueue key (s.broker.viewQ key) := by
  unfold TopoRec.kept at hKept
  unfold applyOp TopoRec.onQueue TopoRec.deletes TopoRec.declares
  cases hOp : ClOp.ofCode r.op with
  | none => simp [hOp] at hKept
  | some op =>
    simp only [hOp, Option.any_some] at hKept
    simp only [hKept, if_true]
    cases op with
    | declareQueue =>
      refine (viewQ_applyDeclareQueue s.broker r.data key).trans ?_
      cases s.broker.viewQ key <;> rfl
    | deleteQueue =>
      show (applyDeleteQueue s.broker r.data).viewQ key = _
      rw [applyDeleteQueue_eq]
      cases readPair r.data with
      | none =>
        rw [Option.elim_none]
        cases s.broker.viewQ key <;> rfl
      | some x =>
        refine (viewQ_brokerDeleteQueue s.broker x.1 x.2 key).trans ?_
        by_cases hKey : vkey x.1 x.2 = key
        · cases s.broker.viewQ key <;> simp [hKey]
        · cases s.broker.viewQ key <;> simp [hKey]
    | noop | publish | ack => cases hKept
    | _ =>
      refine (viewQ_congr (queues_applySwitch s index r.data (by decide)) key).trans ?_
      cases s.broker.viewQ key <;> rfl

end BeaverMQ
