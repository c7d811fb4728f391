import BeaverMQ.Lib.Run
import BeaverMQ.Model.Amqp
import BeaverMQ.Queues.Routing

/-!
# BeaverMQ — isolation of virtual hosts

Queues and exchanges of all vhosts share two registries, and what keeps the vhosts apart is the
composite key `vhost \x01 name`. The routing key of a publish to the default exchange is used
as a queue name without any check, so isolation rests on the keys of the objects that exist: a
key whose vhost and name are free of the separator is the key of nothing else.
-/

namespace BeaverMQ

open List Table

variable {b : Broker}

/-! ## Keys -/

/-- Cutting two equal lists at an element: if the right one has it once, both cuts agree. -/
theorem append_cons_inj {α : Type} {x : α} {v v' n n' : List α}
    (hEq : v ++ x :: n = v' ++ x :: n') (hv : x ∉ v') (hn : x ∉ n') : v = v' ∧ n = n' := by
  rcases append_eq_append_iff.mp hEq with ⟨mid, hLeft, hRight⟩ | ⟨mid, hLeft, hRight⟩
  · cases mid with
    | nil => simp_all
    | cons c mid =>
      rw [cons_append, List.cons.injEq] at hRight
      exact absurd (by rw [hLeft, hRight.1]; simp) hv
  cases mid with
  | nil => simp_all
  | cons c mid =>
    rw [cons_append, List.cons.injEq] at hRight
    exact absurd (by rw [hRight.2]; simp) hn

theorem one_notMem_of_nameOk {s : Bytes} (hOk : Amqp.nameOk s = true) : (1 : UInt8) ∉ s := by
  intro hMem
  have hByte := all_eq_true.mp hOk 1 hMem
  exact absurd hByte (by decide)

/-- **The key of a plain vhost and name determines both**, whatever it is compared to. -/
theorem vkey_plain {v n v' n' : Bytes} (hEq : vkey v n = vkey v' n')
    (hv : Amqp.nameOk v' = true) (hn : Amqp.nameOk n' = true) : v = v' ∧ n = n' :=
  append_cons_inj hEq (one_notMem_of_nameOk hv) (one_notMem_of_nameOk hn)

theorem brokerVkey_eq {v n : Bytes} (hv : v.length ≤ 127) (hn : n.length ≤ 255) :
    brokerVkey v n = vkey v n := by
  refine take_of_length_le ?_
  simp only [vkey, length_append, length_cons]
  omega

/-! ## The registries -/

def Broker.Registered (b : Broker) (vhost name : Bytes) : Prop :=
  (∃ key q, b.queues.get key = some q ∧ q.vhost = vhost ∧ q.name = name) ∨
    ∃ key ex, b.exchanges.get key = some ex ∧ ex.vhost = vhost ∧ ex.name = name

/-- Legal names: no control bytes, and the lengths of the wire. -/
structure PlainName (vhost name : Bytes) : Prop where
  vhostOk : Amqp.nameOk vhost = true
  nameOk : Amqp.nameOk name = true
  vhostLen : vhost.length ≤ 127
  nameLen : name.length ≤ 255

def Broker.PlainNames (b : Broker) : Prop :=
  ∀ vhost name, b.Registered vhost name → PlainName vhost name

/-- Every object stands under its own key, and a binding stays within a vhost. -/
structure Broker.Registry (b : Broker) : Prop where
  queues : ∀ key q, b.queues.get key = some q → key = vkey q.vhost q.name
  exchanges : ∀ key ex, b.exchanges.get key = some ex → key = vkey ex.vhost ex.name
  bindings : ∀ key ex, b.exchanges.get key = some ex → ∀ bd ∈ ex.bindings,
    ∃ vhost exchange queue, key = vkey vhost exchange ∧ bd.queue = vkey vhost queue

def Queue.SameName (q q' : Queue) : Prop := q'.vhost = q.vhost ∧ q'.name = q.name

theorem Broker.Registry.updQueue (hReg : b.Registry) (key : Bytes) {f : Queue → Queue}
    (hName : ∀ q, b.queues.get key = some q → q.SameName (f q)) : (b.updQueue key f).Registry := by
  refine ⟨fun k q hGet => ?_, hReg.exchanges, hReg.bindings⟩
  simp only [Broker.updQueue, get_modify] at hGet
  split at hGet
  · rename_i hKey
    subst hKey
    obtain ⟨q₀, hGet₀, rfl⟩ := Option.map_eq_some_iff.mp hGet
    obtain ⟨hv, hn⟩ := hName q₀ hGet₀
    rw [hv, hn]
    exact hReg.queues k q₀ hGet₀
  · exact hReg.queues k q hGet

variable {q q' : Queue} {b' : Broker} {vhost key : Bytes}

theorem queueEnqueue_sameName {m : Msg} {out : List Msg}
    (hEnq : queueEnqueue b q m = some (q', out)) : q.SameName q' := by
  obtain ⟨kept, -, rfl⟩ := queueEnqueue_queue hEnq
  exact ⟨rfl, rfl⟩

theorem Broker.Registry.declareQueue (hReg : b.Registry) (vhost name : Bytes) (flags : Nat) :
    (brokerDeclareQueue b vhost name flags).1.Registry := by
  simp only [brokerDeclareQueue]
  split
  · exact hReg
  refine ⟨fun k q hGet => ?_, hReg.exchanges, hReg.bindings⟩
  simp only [get_insert] at hGet
  split at hGet
  · rename_i hKey
    cases hGet
    exact hKey
  · exact hReg.queues k q hGet

theorem Broker.Registry.declareExchange (hReg : b.Registry) (vhost name : Bytes)
    (type flags : Nat) : (brokerDeclareExchange b vhost name type flags).Registry := by
  simp only [brokerDeclareExchange]
  split
  · exact hReg
  refine ⟨hReg.queues, fun k ex hGet => ?_, fun k ex hGet bd hMem => ?_⟩
  all_goals
    simp only [get_insert] at hGet
    split at hGet
  · rename_i hKey
    cases hGet
    exact hKey
  · exact hReg.exchanges k ex hGet
  · cases hGet
    cases hMem
  · exact hReg.bindings k ex hGet bd hMem

theorem Broker.Registry.bind (hReg : b.Registry) (vhost queue exchange routingKey : Bytes) :
    (brokerBind b vhost queue exchange routingKey).Registry := by
  simp only [brokerBind]
  split
  · rename_i ex _ hEx _
    refine ⟨hReg.queues, fun k ex' hGet => ?_, fun k ex' hGet bd hMem => ?_⟩
    all_goals
      simp only [get_insert] at hGet
      split at hGet
    · rename_i hKey
      cases hGet
      subst hKey
      have hOwn := hReg.exchanges _ ex hEx
      unfold exchangeBind
      split
      · exact hOwn
      · exact hOwn
    · exact hReg.exchanges k ex' hGet
    · rename_i hKey
      cases hGet
      subst hKey
      unfold exchangeBind at hMem
      split at hMem
      · exact hReg.bindings _ ex hEx bd hMem
      rcases mem_append.mp hMem with hOld | hNew
      · exact hReg.bindings _ ex hEx bd hOld
      · rw [mem_singleton.mp hNew]
        exact ⟨vhost, exchange, queue, rfl, rfl⟩
    · exact hReg.bindings k ex' hGet bd hMem
  · exact hReg

theorem Broker.Registry.deleteQueue (hReg : b.Registry) (vhost name : Bytes) :
    (brokerDeleteQueue b vhost name).Registry := by
  simp only [brokerDeleteQueue]
  split
  · exact hReg
  refine ⟨fun k q hGet => ?_, fun k ex hGet => ?_, fun k ex hGet bd hMem => ?_⟩
  · simp only [get_erase] at hGet
    split at hGet
    · cases hGet
    · exact hReg.queues k q hGet
  · simp only [get_mapVal] at hGet
    obtain ⟨ex₀, hGet₀, rfl⟩ := Option.map_eq_some_iff.mp hGet
    exact hReg.exchanges k ex₀ hGet₀
  · simp only [get_mapVal] at hGet
    obtain ⟨ex₀, hGet₀, rfl⟩ := Option.map_eq_some_iff.mp hGet
    exact hReg.bindings k ex₀ hGet₀ bd (mem_of_mem_filter hMem)

/-! ## Every broker state -/

/-- What `queue.c` offers to change one queue. -/
inductive QueueCall
  | setLimits (maxLength maxBytes : Nat) (overflow : Overflow)
  | setDeadLetter (exchange routingKey : Bytes)
  | deliver (noAck : Bool)
  | consumeOnAck (cid : Nat)
  | requeue (cid : Nat)
  | requeueInternal (m : Msg)
  | drainConsumed (watermark : Nat)
  | purge

def QueueCall.run (q : Queue) : QueueCall → Queue
  | .setLimits maxLength maxBytes overflow => { q with maxLength, maxBytes, overflow }
  | .setDeadLetter exchange routingKey =>
    { q with dlExchange := exchange, dlRoutingKey := routingKey }
  | .deliver noAck => queueDeliver q noAck
  | .consumeOnAck cid => queueConsumeOnAck q cid
  | .requeue cid => queueRequeue q cid
  | .requeueInternal m => queueRequeueInternal q m
  | .drainConsumed watermark => queueDrainConsumed q watermark
  | .purge => queuePurge q

/-- What `broker.c` and `queue.c` offer to change a broker. -/
inductive BrokerCall
  | declareQueue (vhost name : Bytes) (flags : Nat)
  | declareExchange (vhost name : Bytes) (type flags : Nat)
  | bind (vhost queue exchange routingKey : Bytes)
  | deleteQueue (vhost name : Bytes)
  | route (vhost : Bytes) (m : Msg)
  | enqueue (key : Bytes) (m : Msg)
  | queue (key : Bytes) (call : QueueCall)

def Broker.call (b : Broker) : BrokerCall → Option Broker
  | .declareQueue vhost name flags => some (brokerDeclareQueue b vhost name flags).1
  | .declareExchange vhost name type flags => some (brokerDeclareExchange b vhost name type flags)
  | .bind vhost queue exchange routingKey => some (brokerBind b vhost queue exchange routingKey)
  | .deleteQueue vhost name => some (brokerDeleteQueue b vhost name)
  | .route vhost m => some (brokerRoute b vhost m)
  | .enqueue key m => some (brokerEnqueue b key m)
  | .queue key call => some (b.updQueue key call.run)

theorem QueueCall.run_sameName (q : Queue) (call : QueueCall) : q.SameName (call.run q) := by
  cases call with
  | deliver noAck =>
    simp only [QueueCall.run, queueDeliver]
    split
    · exact ⟨rfl, rfl⟩
    split
    · exact ⟨rfl, rfl⟩
    · split <;> exact ⟨rfl, rfl⟩
  | consumeOnAck cid =>
    simp only [QueueCall.run, queueConsumeOnAck]
    split <;> exact ⟨rfl, rfl⟩
  | requeue cid =>
    simp only [QueueCall.run, queueRequeue]
    split <;> exact ⟨rfl, rfl⟩
  | _ => exact ⟨rfl, rfl⟩

theorem Broker.Registry.call (hReg : b.Registry) {call : BrokerCall}
    (hCall : b.call call = some b') : b'.Registry := by
  have hEnqueue : ∀ (b : Broker) (key : Bytes) (q q' : Queue) (m : Msg) (out : List Msg),
      b.Registry → b.queues.get key = some q → queueEnqueue b q m = some (q', out) →
      (b.updQueue key fun _ => q').Registry := by
    intro b key q q' m out hReg hGet hEnq
    refine hReg.updQueue key fun q₀ hGet₀ => ?_
    cases hGet.symm.trans hGet₀
    exact queueEnqueue_sameName hEnq
  cases call <;> cases hCall
  case declareQueue vhost name flags => exact hReg.declareQueue vhost name flags
  case declareExchange vhost name type flags => exact hReg.declareExchange vhost name type flags
  case bind vhost queue exchange rkey => exact hReg.bind vhost queue exchange rkey
  case deleteQueue vhost name => exact hReg.deleteQueue vhost name
  case route vhost m => exact brokerRoute_induct hEnqueue b vhost m hReg
  case enqueue key m => exact brokerEnqueue_induct hEnqueue b key m hReg
  case queue key call => exact hReg.updQueue key fun q _ => call.run_sameName q

/-- A broker state: what any sequence of calls makes of a broker with nothing registered. -/
def Broker.Built (b : Broker) : Prop :=
  ∃ maxLength maxBytes, Run.Reach Broker.call (fun _ _ _ => True)
    { defMaxLength := maxLength, defMaxBytes := maxBytes } b

/-- **Every broker state keeps its registries in order.** -/
theorem registry_run (hBuilt : b.Built) : b.Registry := by
  obtain ⟨maxLength, maxBytes, hReach⟩ := hBuilt
  refine hReach.invariant (P := Broker.Registry) (fun _ _ _ hReg hCall _ => hReg.call hCall) ?_
  refine ⟨fun k q hGet => ?_, fun k ex hGet => ?_, fun k ex hGet => ?_⟩
  all_goals cases (get_empty k).symm.trans hGet

/-! ## Routing -/

/-- `b'` differs from `b` at most inside queues of `vhost`. -/
structure OnlyVhost (vhost : Bytes) (b b' : Broker) : Prop where
  exchanges : b'.exchanges = b.exchanges
  names : ∀ key, (b'.queues.get key).map (fun q => (q.vhost, q.name)) =
    (b.queues.get key).map (fun q => (q.vhost, q.name))
  others : ∀ key q, b.queues.get key = some q → q.vhost ≠ vhost → b'.queues.get key = some q

theorem OnlyVhost.refl (vhost : Bytes) (b : Broker) : OnlyVhost vhost b b :=
  ⟨rfl, fun _ => rfl, fun _ _ hGet _ => hGet⟩

theorem OnlyVhost.trans {b b'' : Broker} (h : OnlyVhost vhost b b')
    (h' : OnlyVhost vhost b' b'') : OnlyVhost vhost b b'' where
  exchanges := h'.exchanges.trans h.exchanges
  names key := (h'.names key).trans (h.names key)
  others key q hGet hNe := h'.others key q (h.others key q hGet hNe) hNe

theorem OnlyVhost.origin {b : Broker} (h : OnlyVhost vhost b b')
    (hGet : b'.queues.get key = some q') :
    ∃ q, b.queues.get key = some q ∧ q'.vhost = q.vhost ∧ q'.name = q.name := by
  have hName := h.names key
  rw [hGet, Option.map_some, eq_comm, Option.map_eq_some_iff] at hName
  obtain ⟨q, hGet₀, hEq⟩ := hName
  exact ⟨q, hGet₀, (Prod.mk.inj hEq).1.symm, (Prod.mk.inj hEq).2.symm⟩

theorem OnlyVhost.updQueue (hGet : b.queues.get key = some q)
    (hVhost : q.vhost = vhost) (hName : q.SameName q') :
    OnlyVhost vhost b (b.updQueue key fun _ => q') := by
  refine ⟨rfl, fun k => ?_, fun k x hx hNe => ?_⟩
  all_goals
    simp only [Broker.updQueue, get_modify]
    split
  · rename_i hKey
    rw [hKey, hGet, Option.map_some, Option.map_some, Option.map_some, hName.1, hName.2]
  · rfl
  · rename_i hKey
    rw [hKey, hGet] at hx
    cases hx
    exact absurd hVhost hNe
  · exact hx

theorem vhost_of_mem_routeTargets (hReg : b.Registry) (hPlain : b.PlainNames) {m : Msg}
    (hMem : key ∈ routeTargets b vhost m) (hGet : b.queues.get key = some q) : q.vhost = vhost := by
  have hName : PlainName q.vhost q.name := hPlain _ _ (.inl ⟨key, q, hGet, rfl, rfl⟩)
  have hKey := hReg.queues key q hGet
  unfold routeTargets at hMem
  split at hMem
  · split at hMem
    · -- the default exchange: the routing key is the name, unchecked
      rw [mem_singleton.mp hMem] at hKey
      exact (vkey_plain hKey hName.vhostOk hName.nameOk).1.symm
    · cases hMem
  split at hMem
  · rename_i ex hEx
    obtain ⟨bd, hBd, -, rfl⟩ := mem_exchangeRoute.mp hMem
    obtain ⟨v, e, n, hOwn, hQueue⟩ := hReg.bindings _ ex hEx bd hBd
    have hExName : PlainName ex.vhost ex.name := hPlain _ _ (.inr ⟨_, ex, hEx, rfl, rfl⟩)
    have hExKey := hReg.exchanges _ ex hEx
    have hVhost := (vkey_plain hExKey hExName.vhostOk hExName.nameOk).1
    have hOrigin := (vkey_plain (hOwn.symm.trans hExKey) hExName.vhostOk hExName.nameOk).1
    have hTarget := (vkey_plain (hQueue.symm.trans hKey) hName.vhostOk hName.nameOk).1
    rw [← hTarget, hOrigin, hVhost]
  · cases hMem

theorem OnlyVhost.keeps {b : Broker} (h : OnlyVhost vhost b b')
    (hReg : b.Registry) (hPlain : b.PlainNames) : b'.Registry ∧ b'.PlainNames := by
  refine ⟨⟨fun key q hGet => ?_, ?_, ?_⟩, ?_⟩
  · obtain ⟨q₀, hGet₀, hv, hn⟩ := h.origin hGet
    rw [hv, hn]
    exact hReg.queues key q₀ hGet₀
  · rw [h.exchanges]
    exact hReg.exchanges
  · rw [h.exchanges]
    exact hReg.bindings
  · rintro v n (⟨key, q, hGet, rfl, rfl⟩ | hEx)
    · obtain ⟨q₀, hGet₀, hv, hn⟩ := h.origin hGet
      rw [hv, hn]
      exact hPlain _ _ (.inl ⟨key, q₀, hGet₀, rfl, rfl⟩)
    · rw [h.exchanges] at hEx
      exact hPlain v n (.inr hEx)

theorem onlyVhost_brokerRouteFuel (fuel : Nat) (b : Broker) (vhost : Bytes) (m : Msg)
    (hReg : b.Registry) (hPlain : b.PlainNames) :
    OnlyVhost vhost b (brokerRouteFuel fuel b vhost m) := by
  induction fuel generalizing b vhost m with
  | zero => exact .refl vhost b
  | succ fuel ih =>
    rw [brokerRouteFuel_succ]
    refine foldlRecOn _ _ (motive := OnlyVhost vhost b) (.refl vhost b)
      fun b₁ hOnly key hMem => hOnly.trans ?_
    obtain ⟨hReg₁, hPlain₁⟩ := hOnly.keeps hReg hPlain
    unfold routeInto
    split
    · exact .refl vhost b₁
    rename_i q hGet
    have hVhost : q.vhost = vhost := by
      obtain ⟨q₀, hGet₀, hv, -⟩ := hOnly.origin hGet
      exact hv.trans (vhost_of_mem_routeTargets hReg hPlain hMem hGet₀)
    split
    · exact .refl vhost b₁
    rename_i q' out hEnq
    -- the dead letters of this enqueue are routed in the vhost of the queue, which is ours
    refine foldlRecOn _ _ (motive := OnlyVhost vhost b₁)
      (.updQueue hGet hVhost (queueEnqueue_sameName hEnq)) fun b₂ hOnly₂ old _ => ?_
    obtain ⟨hReg₂, hPlain₂⟩ := hOnly₂.keeps hReg₁ hPlain₁
    split
    · exact hOnly₂
    rename_i dm _
    rw [hVhost]
    exact hOnly₂.trans (ih b₂ vhost dm hReg₂ hPlain₂)

/-- **Isolation of vhosts.** In a broker with plain names a publish in a vhost, whatever its
exchange and routing key, changes no queue but those of that vhost, and `broker_vkey` gives
distinct objects distinct keys. -/
theorem vhost_isolation (hBuilt : b.Built) (hPlain : b.PlainNames) :
    (∀ (vhost : Bytes) (m : Msg) (key : Bytes),
      (brokerRoute b vhost m).queues.get key ≠ b.queues.get key →
        ∃ q, b.queues.get key = some q ∧ q.vhost = vhost) ∧
    ∀ v n v' n', b.Registered v n → b.Registered v' n' → brokerVkey v n = brokerVkey v' n' →
      v = v' ∧ n = n' := by
  have hReg := registry_run hBuilt
  refine ⟨fun vhost m key hChanged => ?_, fun v n v' n' hLeft hRight hKey => ?_⟩
  · have hOnly := onlyVhost_brokerRouteFuel (routeBudget b + 1) b vhost m hReg hPlain
    rcases Option.eq_none_or_eq_some (b.queues.get key) with hNone | ⟨q, hGet⟩
    · have hName := hOnly.names key
      rw [hNone, Option.map_none, Option.map_eq_none_iff] at hName
      exact absurd (hName.trans hNone.symm) hChanged
    by_cases hVhost : q.vhost = vhost
    · exact ⟨q, hGet, hVhost⟩
    · exact absurd ((hOnly.others key q hGet hVhost).trans hGet.symm) hChanged
  · have hPlainL := hPlain v n hLeft
    have hPlainR := hPlain v' n' hRight
    rw [brokerVkey_eq hPlainL.vhostLen hPlainL.nameLen,
      brokerVkey_eq hPlainR.vhostLen hPlainR.nameLen] at hKey
    exact vkey_plain hKey hPlainR.vhostOk hPlainR.nameOk

/-- The names of the registered objects pass the check of the wire. -/
def Broker.plainNames (b : Broker) : Bool :=
  let plain (v n : Bytes) : Bool :=
    Amqp.nameOk v && Amqp.nameOk n && v.length ≤ 127 && n.length ≤ 255
  (b.queues.values.all fun q => plain q.vhost q.name) &&
    b.exchanges.values.all fun ex => plain ex.vhost ex.name

theorem plainNames_of_check (hCheck : b.plainNames = true) : b.PlainNames := by
  simp only [Broker.plainNames, Bool.and_eq_true, all_eq_true, decide_eq_true_eq] at hCheck
  rintro v n (⟨key, q, hGet, rfl, rfl⟩ | ⟨key, ex, hGet, rfl, rfl⟩)
  · obtain ⟨⟨⟨hv, hn⟩, hvLen⟩, hnLen⟩ := hCheck.1 q (mem_values_of_get hGet)
    exact ⟨hv, hn, hvLen, hnLen⟩
  · obtain ⟨⟨⟨hv, hn⟩, hvLen⟩, hnLen⟩ := hCheck.2 ex (mem_values_of_get hGet)
    exact ⟨hv, hn, hvLen, hnLen⟩

/-- Two vhosts with a queue of the same name each, and a publish in one of them whose routing
key holds the separator. -/
theorem vhost_isolation_two_vhosts :
    ∃ b : Broker, b.Built ∧ b.PlainNames ∧ (b.queues.get (vkey [98] [113])).isSome = true ∧
      ∀ key, (brokerRoute b [97] ⟨[], [113, 1, 113], [], [7], 0, 0⟩).queues.get key ≠
        b.queues.get key → ∃ q, b.queues.get key = some q ∧ q.vhost = [97] := by
  obtain ⟨b, hReach, hNames, hSome⟩ : ∃ b, Run.Reach Broker.call (fun _ _ _ => True) {} b ∧
      b.plainNames = true ∧ (b.queues.get (vkey [98] [113])).isSome = true :=
    Run.exists_reach [.declareQueue [97] [113] 0, .declareQueue [98] [113] 0,
      .declareExchange [97] [120] exchangeFanout 0, .bind [97] [113] [120] []] (by decide +kernel)
  have hPlain := plainNames_of_check hNames
  have hBuilt : b.Built := ⟨0, 0, hReach⟩
  exact ⟨b, hBuilt, hPlain, hSome, (vhost_isolation hBuilt hPlain).1 [97] _⟩

end BeaverMQ
