import BeaverMQ.Access.Vhosts
import BeaverMQ.Model.Objects

/-!
# BeaverMQ — bindings point into the registry

A binding holds a pointer, and a queue can be deleted and declared again under the same name.
What keeps the pointers right is the order of a delete, which drops the bindings of the queue
in every exchange before the queue leaves the registry, and the lock, which keeps every other
change out meanwhile. So the invariant holds in the middle of a delete as well.
-/

namespace BeaverMQ.Objects

open List Function ChainMap

variable {hash : Bytes → Nat} {r : Registry hash} {gone : List Nat}

/-! ## Exchanges -/

variable {ex : ExchangeObj} {q : QueueObj} {bd : BindingObj} {vhost name : Name}

theorem mem_exchangeBind {routingKey : Bytes} {mem : Bool}
    (hMem : bd ∈ (exchangeBind ex routingKey q mem).1.bindings) :
    bd ∈ ex.bindings ∨ bd.queue = q := by
  unfold exchangeBind at hMem
  split at hMem
  · exact .inl hMem
  split at hMem
  · rcases mem_append.mp hMem with hOld | hNew
    · exact .inl hOld
    · exact .inr (by rw [mem_singleton.mp hNew])
  · exact .inl hMem

theorem mem_exchangeUnbindQueue :
    bd ∈ (exchangeUnbindQueue q ex).bindings ↔ bd ∈ ex.bindings ∧ bd.queue.id ≠ q.id := by
  simp only [exchangeUnbindQueue, mem_swapFilter, decide_eq_false_iff_not, ne_eq]

theorem mem_exchangeRoute {routingKey : Bytes}
    (hMem : q ∈ exchangeRoute ex routingKey) : ∃ bd ∈ ex.bindings, bd.queue = q := by
  have hAll : ∀ (bds : List BindingObj) (acc : List QueueObj),
      q ∈ bds.foldl (fun targets bd =>
        if targets.any fun q => q.id = bd.queue.id then targets else targets ++ [bd.queue]) acc →
      q ∈ acc ∨ ∃ bd ∈ bds, bd.queue = q := by
    intro bds
    induction bds with
    | nil => intro acc h; exact .inl h
    | cons bd bds ih =>
      intro acc h
      rcases ih _ h with hAcc | ⟨bd', hMem', hEq⟩
      · dsimp only at hAcc
        split at hAcc
        · exact .inl hAcc
        rcases mem_append.mp hAcc with hOld | hNew
        · exact .inl hOld
        · exact .inr ⟨bd, mem_cons_self, (mem_singleton.mp hNew).symm⟩
      · exact .inr ⟨bd', mem_cons_of_mem _ hMem', hEq⟩
  rcases hAll _ [] hMem with hNil | ⟨bd, hBd, hEq⟩
  · cases hNil
  · exact ⟨bd, (mem_filter.mp hBd).1, hEq⟩

/-! ## Keys -/

def Plain (vhost name : Name) : Prop :=
  Amqp.nameOk vhost.bytes = true ∧ Amqp.nameOk name.bytes = true

theorem objectKey_eq (vhost name : Name) : objectKey vhost name = vkey vhost.bytes name.bytes := by
  have hv := vhost.short
  have hn := name.short
  refine take_of_length_le ?_
  simp only [vkey, length_append, length_cons]
  omega

theorem objectKey_plain {v n v' n' : Name} (hEq : objectKey v n = objectKey v' n')
    (hPlain : Plain v' n') : v = v' ∧ n = n' := by
  rw [objectKey_eq, objectKey_eq] at hEq
  obtain ⟨hv, hn⟩ := vkey_plain hEq hPlain.1 hPlain.2
  exact ⟨AuthDb.Str.ext hv, AuthDb.Str.ext hn⟩

/-! ## What holds of the registries -/

/-- Every object stands under a plain key that ends in its name, queues are told apart by their
identity, bindings point to what is registered, and the deleted queues are not. -/
structure Sound (r : Registry hash) (gone : List Nat) : Prop where
  queue : ∀ k q, r.queues.get k = some q →
    q.id < r.nextId ∧ ∃ vhost, Plain vhost q.name ∧ k = objectKey vhost q.name
  distinct : ∀ k k' q q', r.queues.get k = some q → r.queues.get k' = some q' → q.id = q'.id → k = k'
  exchange : ∀ k ex, r.exchanges.get k = some ex → ∃ vhost name, Plain vhost name ∧
    k = objectKey vhost name ∧
    ∀ bd ∈ ex.bindings, r.queues.get (objectKey vhost bd.queue.name) = some bd.queue
  gone : ∀ id ∈ gone, id < r.nextId ∧ ∀ k q, r.queues.get k = some q → q.id ≠ id

section

variable (h : Sound r gone)
include h

theorem Sound.registered {k : Bytes} (hEx : r.exchanges.get k = some ex) (hMem : bd ∈ ex.bindings) :
    ∃ key, r.queues.get key = some bd.queue := by
  obtain ⟨vhost, name, -, -, hBound⟩ := h.exchange k ex hEx
  exact ⟨_, hBound bd hMem⟩

theorem Sound.congr {r' : Registry hash} (hQueues : ∀ k, r'.queues.get k = r.queues.get k)
    (hExchanges : ∀ k, r'.exchanges.get k = r.exchanges.get k) (hNext : r.nextId ≤ r'.nextId) :
    Sound r' gone := by
  refine ⟨fun k q hGet => ?_, fun k k' q q' hGet hGet' => ?_, fun k ex hGet => ?_, fun id hId => ?_⟩
  · rw [hQueues] at hGet
    obtain ⟨hLt, hKey⟩ := h.queue k q hGet
    exact ⟨hLt.trans_le hNext, hKey⟩
  · rw [hQueues] at hGet hGet'
    exact h.distinct k k' q q' hGet hGet'
  · rw [hExchanges] at hGet
    obtain ⟨vhost, name, hPlain, hKey, hBound⟩ := h.exchange k ex hGet
    exact ⟨vhost, name, hPlain, hKey, fun bd hMem => (hQueues _).trans (hBound bd hMem)⟩
  · obtain ⟨hLt, hBut⟩ := h.gone id hId
    exact ⟨hLt.trans_le hNext, fun k q hGet => hBut k q ((hQueues k).symm.trans hGet)⟩

/-- A new queue has an id that nothing carries yet. -/
theorem Sound.addQueue {queues : ChainMap hash QueueObj}
    {flags : UInt8} (hPlain : Plain vhost name) (hFree : r.queues.get (objectKey vhost name) = none)
    (hGet : ∀ k, queues.get k =
      if k = objectKey vhost name then some ⟨r.nextId, name, flags⟩ else r.queues.get k) :
    Sound { r with queues, nextId := r.nextId + 1 } gone := by
  -- its identity is larger than that of every queue there is, or was
  have hOther : ∀ k q, queues.get k = some q → k ≠ objectKey vhost name →
      r.queues.get k = some q := by
    intro k q hq hNe
    rwa [hGet, if_neg hNe] at hq
  have hNew : ∀ q, queues.get (objectKey vhost name) = some q → q = ⟨r.nextId, name, flags⟩ := by
    intro q hq
    rw [hGet, if_pos rfl] at hq
    exact (Option.some.inj hq).symm
  refine ⟨fun k q hq => ?_, fun k k' q q' hq hq' hId => ?_, fun k ex hEx => ?_, fun id hId => ?_⟩
  · by_cases hKey : k = objectKey vhost name
    · subst hKey
      rw [hNew q hq]
      exact ⟨Nat.lt_succ_self _, vhost, hPlain, rfl⟩
    · obtain ⟨hLt, hRest⟩ := h.queue k q (hOther k q hq hKey)
      exact ⟨Nat.lt_succ_of_lt hLt, hRest⟩
  · by_cases hKey : k = objectKey vhost name <;> by_cases hKey' : k' = objectKey vhost name
    · rw [hKey, hKey']
    · subst hKey
      have hLt := (h.queue k' q' (hOther k' q' hq' hKey')).1
      rw [hNew q hq] at hId
      exact absurd hId hLt.ne'
    · subst hKey'
      have hLt := (h.queue k q (hOther k q hq hKey)).1
      rw [hNew q' hq'] at hId
      exact absurd hId hLt.ne
    · exact h.distinct k k' q q' (hOther k q hq hKey) (hOther k' q' hq' hKey') hId
  · obtain ⟨v, n, hExPlain, hExKey, hBound⟩ := h.exchange k ex hEx
    refine ⟨v, n, hExPlain, hExKey, fun bd hMem => ?_⟩
    have hOld := hBound bd hMem
    dsimp only
    rw [hGet, if_neg]
    · exact hOld
    · intro hKey
      rw [hKey, hFree] at hOld
      cases hOld
  · obtain ⟨hLt, hBut⟩ := h.gone id hId
    refine ⟨Nat.lt_succ_of_lt hLt, fun k q hq => ?_⟩
    by_cases hKey : k = objectKey vhost name
    · subst hKey
      rw [hNew q hq]
      exact hLt.ne'
    · exact hBut k q (hOther k q hq hKey)

theorem Sound.declareQueue (hPlain : Plain vhost name)
    (flags : UInt8) (mem : Mem) : Sound (brokerDeclareQueue r vhost name flags mem).1 gone := by
  unfold brokerDeclareQueue
  rcases Option.eq_none_or_eq_some (r.queues.get (objectKey vhost name)) with hNone | ⟨q, hSome⟩
  · rw [hNone]
    by_cases hMem : mem.object = true
    · simp only [if_pos hMem]
      rcases hPut : r.queues.put (objectKey vhost name) ⟨r.nextId, name, flags⟩ mem.buckets mem.entry
        with ⟨queues, ok⟩
      cases ok with
      | false =>
        have hGet := get_put_of_fail (congrArg Prod.snd hPut)
        rw [hPut] at hGet
        exact h.congr hGet (fun _ => rfl) (Nat.le_succ _)
      | true =>
        have hGet := get_put_of_ok (congrArg Prod.snd hPut)
        rw [hPut] at hGet
        exact h.addQueue hPlain hNone hGet
    · simp only [if_neg hMem]
      exact h
  · rw [hSome]
    exact h

/-- Exchanges that change in their bindings only, each to bindings of registered queues of the
same vhost. -/
theorem Sound.setExchanges {exchanges : ChainMap hash ExchangeObj}
    (hEach : ∀ k ex, exchanges.get k = some ex → ∃ vhost name, Plain vhost name ∧
      k = objectKey vhost name ∧
      ∀ bd ∈ ex.bindings, r.queues.get (objectKey vhost bd.queue.name) = some bd.queue) :
    Sound { r with exchanges } gone :=
  ⟨h.queue, h.distinct, hEach, h.gone⟩

theorem Sound.declareExchange (hPlain : Plain vhost name) (type : Nat) (flags : UInt8) (mem : Mem) :
    Sound (brokerDeclareExchange r vhost name type flags mem).1 gone := by
  unfold brokerDeclareExchange
  rcases Option.eq_none_or_eq_some (r.exchanges.get (objectKey vhost name)) with hNone | ⟨ex, hSome⟩
  · rw [hNone]
    by_cases hMem : mem.object = true
    · simp only [if_pos hMem]
      rcases hPut : r.exchanges.put (objectKey vhost name) { type, flags } mem.buckets mem.entry
        with ⟨exchanges, ok⟩
      refine h.setExchanges fun k ex hGet => ?_
      cases ok with
      | false =>
        have hAll := get_put_of_fail (congrArg Prod.snd hPut)
        rw [hPut] at hAll
        exact h.exchange k ex ((hAll k).symm.trans hGet)
      | true =>
        have hAll := get_put_of_ok (congrArg Prod.snd hPut)
        rw [hPut] at hAll
        rw [hAll] at hGet
        split at hGet
        · rename_i hKey
          cases hGet
          exact ⟨vhost, name, hPlain, hKey, by simp⟩
        · exact h.exchange k ex hGet
    · simp only [if_neg hMem]
      exact h
  · rw [hSome]
    exact h

theorem Sound.bind {queue exchange : Name}
    (hQueue : Plain vhost queue) (hExchange : Plain vhost exchange) (routingKey : Name) (mem : Bool) :
    Sound (brokerBind r vhost queue exchange routingKey mem).1 gone := by
  unfold brokerBind
  rcases Option.eq_none_or_eq_some (r.exchanges.get (objectKey vhost exchange))
    with hNone | ⟨ex, hEx⟩
  · rw [hNone]
    exact h
  rcases Option.eq_none_or_eq_some (r.queues.get (objectKey vhost queue)) with hNone | ⟨q, hq⟩
  · rw [hEx, hNone]
    exact h
  rw [hEx, hq]
  refine h.setExchanges fun k ex' hGet => ?_
  rw [get_modify, hEx] at hGet
  split at hGet
  · rename_i hKey
    cases hGet
    obtain ⟨v, n, hPlain, hOwn, hBound⟩ := h.exchange _ ex hEx
    obtain ⟨rfl, rfl⟩ := objectKey_plain hOwn hPlain
    refine ⟨vhost, exchange, hExchange, hKey, fun bd hMem => ?_⟩
    rcases mem_exchangeBind hMem with hOld | hNew
    · exact hBound bd hOld
    -- the queue was looked up under its own name
    obtain ⟨-, v', -, hQueueKey⟩ := h.queue _ q hq
    obtain ⟨hv', hName⟩ := objectKey_plain hQueueKey.symm hQueue
    rw [hNew, hName]
    exact hq
  · exact h.exchange k ex' hGet

theorem Sound.unbind (k : Bytes) (q : QueueObj) :
    Sound { r with exchanges := r.exchanges.modify k (exchangeUnbindQueue q) } gone := by
  refine h.setExchanges fun k' ex hGet => ?_
  rw [get_modify] at hGet
  split at hGet
  · rename_i hKey
    obtain ⟨ex₀, hEx, rfl⟩ := Option.map_eq_some_iff.mp hGet
    obtain ⟨v, n, hPlain, hOwn, hBound⟩ := h.exchange k ex₀ hEx
    exact ⟨v, n, hPlain, hKey.trans hOwn, fun bd hMem =>
      hBound bd (mem_exchangeUnbindQueue.mp hMem).1⟩
  · exact h.exchange k' ex hGet

/-- A queue may go once no exchange names it. -/
theorem Sound.remove {key : Bytes} (hq : r.queues.get key = some q)
    (hFree : ∀ k ex, r.exchanges.get k = some ex → ∀ bd ∈ ex.bindings, bd.queue.id ≠ q.id) :
    Sound { r with queues := r.queues.remove key } (q.id :: gone) := by
  have hOther : ∀ k q', (r.queues.remove key).get k = some q' →
      k ≠ key ∧ r.queues.get k = some q' := by
    intro k q' hGet
    rw [get_remove] at hGet
    split at hGet
    · cases hGet
    · exact ⟨‹_›, hGet⟩
  refine ⟨fun k q' hGet => h.queue k q' (hOther k q' hGet).2, fun k k' q₁ q₂ h₁ h₂ => ?_,
    fun k ex hEx => ?_, fun id hId => ?_⟩
  · exact h.distinct k k' q₁ q₂ (hOther k q₁ h₁).2 (hOther k' q₂ h₂).2
  · obtain ⟨v, n, hPlain, hOwn, hBound⟩ := h.exchange k ex hEx
    refine ⟨v, n, hPlain, hOwn, fun bd hMem => ?_⟩
    have hOld := hBound bd hMem
    dsimp only
    rw [get_remove, if_neg]
    · exact hOld
    · intro hKey
      rw [hKey, hq] at hOld
      exact hFree k ex hEx bd hMem (congrArg QueueObj.id (Option.some.inj hOld)).symm
  · rcases mem_cons.mp hId with rfl | hOld
    · refine ⟨(h.queue key q hq).1, fun k q' hGet hSame => ?_⟩
      obtain ⟨hNe, hGet'⟩ := hOther k q' hGet
      exact hNe (h.distinct k key q' q hGet' hq hSame)
    · obtain ⟨hLt, hBut⟩ := h.gone id hOld
      exact ⟨hLt, fun k q' hGet => hBut k q' (hOther k q' hGet).2⟩

end

/-! ## Threads -/

/-- The thread holds the lock for writing and has not finished its work. -/
def Phase.exclusive : Phase → Bool
  | .inside c => c.writes
  | .unbinding .. => true
  | _ => false

/-- The walk of a delete: the queue is still registered, and no exchange behind the walk has a
binding to it. -/
def Walked (r : Registry hash) (key : Bytes) (q : QueueObj) (rest : List Bytes) : Prop :=
  r.queues.get key = some q ∧ ∀ k ex, r.exchanges.get k = some ex → k ∉ rest →
    ∀ bd ∈ ex.bindings, bd.queue.id ≠ q.id

def Phase.Fact (r : Registry hash) : Phase → Prop
  | .waiting c | .inside c => c.checked = true
  | .unbinding key q rest => Walked r key q rest
  | _ => True

theorem Phase.Fact.of_not_exclusive {r' : Registry hash} {p : Phase} (h : p.Fact r)
    (hNot : p.exclusive ≠ true) : p.Fact r' := by
  cases p with
  | unbinding key q rest => exact absurd rfl hNot
  | _ => exact h

/-- The registry is sound, and who changes it holds the lock. -/
structure Inv (m : Machine hash) : Prop where
  sound : Sound m.reg m.deleted
  owner : ∀ i, (m.threads i).exclusive = true → m.writer = some i
  fact : ∀ i, (m.threads i).Fact m.reg

variable {m m' : Machine hash} {i : Nat} {p : Phase}

theorem Inv.quiet (h : Inv m) (hThreads : m'.threads = update m.threads i p)
    (hReg : m'.reg = m.reg) (hGone : m'.deleted = m.deleted)
    (hWriter : ∀ j ≠ i, m.writer = some j → m'.writer = some j)
    (hOwner : p.exclusive = true → m'.writer = some i) (hFact : p.Fact m.reg) : Inv m' := by
  refine ⟨by rw [hReg, hGone]; exact h.sound, fun j hEx => ?_, fun j => ?_⟩
  all_goals
    rw [hThreads] at *
    by_cases hIs : j = i
  · subst hIs
    rw [update_self] at hEx
    exact hOwner hEx
  · rw [update_of_ne hIs] at hEx
    exact hWriter j hIs (h.owner j hEx)
  · subst hIs
    rw [update_self, hReg]
    exact hFact
  · rw [update_of_ne hIs, hReg]
    exact h.fact j

/-- A step of the thread that holds the lock for writing: no other thread is at work. -/
theorem Inv.exclusive (h : Inv m) (hHolds : m.writer = some i)
    (hThreads : m'.threads = update m.threads i p) (hWriter : m'.writer = m.writer)
    (hSound : Sound m'.reg m'.deleted) (hFact : p.Fact m'.reg) : Inv m' := by
  have hNot : ∀ j ≠ i, (m.threads j).exclusive ≠ true := fun j hNe hEx =>
    hNe (Option.some.inj ((h.owner j hEx).symm.trans hHolds))
  refine ⟨hSound, fun j hEx => ?_, fun j => ?_⟩
  all_goals
    rw [hThreads] at *
    by_cases hIs : j = i
  · rw [hIs, hWriter, hHolds]
  · rw [update_of_ne hIs] at hEx
    exact absurd hEx (hNot j hIs)
  · subst hIs
    rw [update_self]
    exact hFact
  · rw [update_of_ne hIs]
    exact (h.fact j).of_not_exclusive (hNot j hIs)

theorem checked_declare
    (hOk : (Amqp.nameOk vhost.bytes && Amqp.nameOk name.bytes) = true) : Plain vhost name :=
  (Bool.and_eq_true _ _).mp hOk

theorem inv_perform (h : Inv m) {c : Call} (hAt : m.threads i = .inside c) :
    Inv (m.perform i c) := by
  have hChecked : c.checked = true := by
    have hFact := h.fact i
    rwa [hAt] at hFact
  have hHolds (hWrites : c.writes = true) : m.writer = some i := h.owner i (by rw [hAt]; exact hWrites)
  cases c with
  | declareQueue vhost name flags mem =>
    exact h.exclusive (hHolds rfl) rfl rfl
      (h.sound.declareQueue (checked_declare hChecked) flags mem) trivial
  | declareExchange vhost name type flags mem =>
    exact h.exclusive (hHolds rfl) rfl rfl
      (h.sound.declareExchange (checked_declare hChecked) type flags mem) trivial
  | bind vhost queue exchange routingKey mem =>
    simp only [Call.checked, Bool.and_eq_true] at hChecked
    obtain ⟨⟨hv, hq⟩, he⟩ := hChecked
    exact h.exclusive (hHolds rfl) rfl rfl
      (h.sound.bind ⟨hv, hq⟩ ⟨hv, he⟩ routingKey mem) trivial
  | deleteQueue vhost name ifUnused ifEmpty consumers depth =>
    unfold Machine.perform
    dsimp only
    split
    · exact h.quiet rfl rfl rfl (fun _ _ hw => hw) (by rintro ⟨⟩) trivial
    rename_i q hTarget
    refine h.exclusive (hHolds rfl) rfl rfl h.sound ⟨?_, fun k ex hEx hNot => ?_⟩
    · unfold deleteTarget at hTarget
      split at hTarget
      · cases hTarget
      rename_i q' hGet
      split_ifs at hTarget
      cases hTarget
      exact hGet
    · -- nothing is behind the walk yet
      exact absurd (mem_keys.mpr ⟨ex, hEx⟩) hNot
  | route vhost exchange routingKey mem =>
    exact h.quiet rfl rfl rfl (fun _ _ hw => hw) (by rintro ⟨⟩) trivial

theorem inv_unbind (h : Inv m) {key : Bytes} {rest : List Bytes}
    (hAt : m.threads i = .unbinding key q rest) : Inv (m.unbind i key q rest) := by
  have hHolds : m.writer = some i := h.owner i (by rw [hAt]; rfl)
  obtain ⟨hReg, hBehind⟩ : Walked m.reg key q rest := by
    have hFact := h.fact i
    rwa [hAt] at hFact
  cases rest with
  | nil =>
    exact h.exclusive hHolds rfl rfl
      (h.sound.remove hReg fun k ex hEx => hBehind k ex hEx not_mem_nil) trivial
  | cons k rest =>
    refine h.exclusive hHolds rfl rfl (h.sound.unbind k q) ⟨hReg, fun k' ex hEx hNot bd hMem => ?_⟩
    change (m.reg.exchanges.modify k (exchangeUnbindQueue q)).get k' = some ex at hEx
    rw [get_modify] at hEx
    split at hEx
    · obtain ⟨ex₀, -, rfl⟩ := Option.map_eq_some_iff.mp hEx
      exact (mem_exchangeUnbindQueue.mp hMem).2
    · rename_i hNe
      exact hBehind k' ex hEx (fun hIn => (mem_cons.mp hIn).elim hNe hNot) bd hMem

theorem inv_lock (h : Inv m) {c : Call} (hAt : m.threads i = .waiting c)
    (hLock : m.lock i c = some m') : Inv m' := by
  have hChecked : c.checked = true := by
    have hFact := h.fact i
    rwa [hAt] at hFact
  unfold Machine.lock at hLock
  split_ifs at hLock with hWrites hFree hFree
  · cases hLock
    refine h.quiet rfl rfl rfl (fun j _ hw => ?_) (fun _ => rfl) hChecked
    rw [hFree.1] at hw
    cases hw
  · cases hLock
    exact h.quiet rfl rfl rfl (fun _ _ hw => hw) (fun hEx => absurd hEx hWrites) hChecked

theorem inv_step {e : Event} (h : Inv m) (hStep : step m e = some m') : Inv m' := by
  cases e with
  | call i c =>
    simp only [step] at hStep
    split at hStep
    · split_ifs at hStep with hChecked
      cases hStep
      exact h.quiet rfl rfl rfl (fun _ _ hw => hw) (by rintro ⟨⟩) hChecked
    · cases hStep
  | run i =>
    simp only [step] at hStep
    rcases hAt : m.threads i with _ | c | c | ⟨key, q, rest⟩ | ⟨rc, targets⟩ | targets
    all_goals rw [hAt] at hStep
    · cases hStep
    · exact inv_lock h hAt hStep
    · cases hStep
      exact inv_perform h hAt
    · cases hStep
      exact inv_unbind h hAt
    · cases hStep
      refine h.quiet rfl rfl rfl (fun j hNe hw => ?_) (fun hNo => ?_) ?_
      · dsimp only
        rw [if_neg (by rw [hw]; exact fun hEq => hNe (Option.some.inj hEq)), hw]
      · split at hNo <;> cases hNo
      · split <;> trivial
    · cases hStep
      exact h.quiet rfl rfl rfl (fun _ _ hw => hw) (by rintro ⟨⟩) trivial

theorem inv_start : Inv (start hash) := by
  refine ⟨⟨fun k q hGet => ?_, fun k k' q q' hGet => ?_, fun k ex hGet => ?_, fun id hId => ?_⟩,
    (fun i hEx => nomatch hEx), fun i => trivial⟩
  all_goals first | exact nomatch hGet | exact nomatch hId

/-- In every state that calls from any number of threads can reach, in any order of their steps
and under any hash function: a binding of an exchange registered in a vhost points to the queue
registered there under its name, and a queue that `broker_delete_queue` has removed is neither
bound anywhere nor the target of a route. -/
theorem bindings_registered (hash : Bytes → Nat) {m : Machine hash}
    (hReach : Run.Reach step (fun _ _ _ => True) (start hash) m) :
    (∀ (vhost name : Name) (ex : ExchangeObj),
      m.reg.exchanges.get (objectKey vhost name) = some ex →
        ∀ bd ∈ ex.bindings, m.reg.queues.get (objectKey vhost bd.queue.name) = some bd.queue) ∧
    ∀ id ∈ m.deleted, ∀ (key : Bytes) (ex : ExchangeObj), m.reg.exchanges.get key = some ex →
      (∀ bd ∈ ex.bindings, bd.queue.id ≠ id) ∧
        ∀ routingKey, ∀ q ∈ exchangeRoute ex routingKey, q.id ≠ id := by
  have hInv : Inv m :=
    Run.Reach.invariant (P := Inv) (fun _ _ _ h hStep _ => inv_step h hStep) inv_start hReach
  refine ⟨fun vhost name ex hEx bd hMem => ?_, fun id hId key ex hEx => ?_⟩
  · obtain ⟨v, n, hPlain, hKey, hBound⟩ := hInv.sound.exchange _ ex hEx
    obtain ⟨rfl, rfl⟩ := objectKey_plain hKey hPlain
    exact hBound bd hMem
  · have hBound : ∀ bd ∈ ex.bindings, bd.queue.id ≠ id := by
      intro bd hMem
      obtain ⟨k, hGet⟩ := hInv.sound.registered hEx hMem
      exact (hInv.sound.gone id hId).2 k bd.queue hGet
    refine ⟨hBound, fun routingKey q hq => ?_⟩
    obtain ⟨bd, hMem, rfl⟩ := mem_exchangeRoute hq
    exact hBound bd hMem

/-- A queue is declared, bound, deleted while a route to it is under way, declared and bound
again: the binding that is there then is that of the second object. -/
theorem bindings_registered_again : ∃ (m : Machine List.length) (vhost name : Name)
    (ex : ExchangeObj) (bd : BindingObj), Run.Reach step (fun _ _ _ => True) (start List.length) m ∧
      m.deleted = [0] ∧ m.reg.exchanges.get (objectKey vhost name) = some ex ∧ bd ∈ ex.bindings ∧
      m.reg.queues.get (objectKey vhost bd.queue.name) = some bd.queue ∧ bd.queue.id ≠ 0 := by
  let v : Name := ⟨[47], by decide, by decide⟩
  let q : Name := ⟨[113], by decide, by decide⟩
  let e : Name := ⟨[101], by decide, by decide⟩
  obtain ⟨m, hReach, hGone, hBindings⟩ : ∃ m, Run.Reach step (fun _ _ _ => True)
      (start length) m ∧ m.deleted = [0] ∧ (m.reg.exchanges.get (objectKey v e)).map
        (fun ex => ex.bindings) = some [⟨[113], ⟨1, q, 0⟩⟩] :=
    Run.exists_reach [.call 0 (.declareQueue v q 0 {}), .run 0, .run 0, .run 0,
        .call 0 (.declareExchange v e exchangeFanout 0 {}), .run 0, .run 0, .run 0,
        .call 0 (.bind v q e q true), .run 0, .run 0, .run 0,
        .call 0 (.deleteQueue v q false false 0 0), .call 1 (.route v e q true), .run 1, .run 1,
        .run 1, .run 0, .run 0, .run 0, .run 1, .run 0, .run 0,
        .call 0 (.declareQueue v q 0 {}), .run 0, .run 0, .run 0,
        .call 0 (.bind v q e q true), .run 0, .run 0, .run 0] (by decide +kernel)
  obtain ⟨ex, hEx, hBds⟩ := Option.map_eq_some_iff.mp hBindings
  have hMem : (⟨[113], ⟨1, q, 0⟩⟩ : BindingObj) ∈ ex.bindings := by
    rw [hBds]
    exact mem_singleton_self _
  obtain ⟨hPoints, hOut⟩ := bindings_registered length hReach
  exact ⟨m, v, e, ex, _, hReach, hGone, hEx, hMem, hPoints v e ex hEx _ hMem,
    (hOut 0 (by rw [hGone]; exact mem_singleton_self 0) _ ex hEx).1 _ hMem⟩

end BeaverMQ.Objects
