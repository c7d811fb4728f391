import BeaverMQ.Model.Objects

/-!
# BeaverMQ — bindings and routes as sets

Whatever was bound and unbound, the array of an exchange holds each pair of a queue and a key
that was bound and not unbound since once, and a route finds each queue with a matching key once.
-/

namespace BeaverMQ.Objects

open List

/-! ## Bindings -/

/-- The pairs of an exchange: the identity of the queue and the key. -/
def ExchangeObj.pairs (ex : ExchangeObj) : List (Nat × Bytes) :=
  ex.bindings.map fun bd => (bd.queue.id, bd.routingKey)

/-- A call that changes the bindings of an exchange. -/
inductive BindCall
  | bind (routingKey : Bytes) (q : QueueObj)
  | unbind (q : QueueObj)

def BindCall.run (ex : ExchangeObj) : BindCall → ExchangeObj
  | .bind routingKey q => (exchangeBind ex routingKey q true).1
  | .unbind q => exchangeUnbindQueue q ex

/-- The same call on a set of pairs. -/
def BindCall.onPairs (pairs : Set (Nat × Bytes)) : BindCall → Set (Nat × Bytes)
  | .bind routingKey q => insert (q.id, routingKey) pairs
  | .unbind q => {x ∈ pairs | x.1 ≠ q.id}

variable (ex : ExchangeObj)

theorem pairs_bind (routingKey : Bytes) (q : QueueObj) :
    (exchangeBind ex routingKey q true).1.pairs =
      if (q.id, routingKey) ∈ ex.pairs then ex.pairs else ex.pairs ++ [(q.id, routingKey)] := by
  have hAny : (ex.bindings.any fun bd => bd.queue.id = q.id && bd.routingKey = routingKey) = true ↔
      (q.id, routingKey) ∈ ex.pairs := by
    simp [ExchangeObj.pairs]
  unfold exchangeBind
  by_cases hOld : (q.id, routingKey) ∈ ex.pairs
  · rw [if_pos (hAny.mpr hOld), if_pos hOld]
  · rw [if_neg (mt hAny.mp hOld), if_neg hOld]
    simp [ExchangeObj.pairs]

theorem pairs_unbind (q : QueueObj) :
    (exchangeUnbindQueue q ex).pairs.Perm (ex.pairs.filter fun x => x.1 ≠ q.id) := by
  unfold ExchangeObj.pairs exchangeUnbindQueue
  rw [filter_map]
  refine (perm_swapFilter _ _).map _ |>.trans (.of_eq ?_)
  congr 2
  funext bd
  simp

theorem type_run (call : BindCall) : (call.run ex).type = ex.type := by
  cases call with
  | bind routingKey q =>
    show (exchangeBind ex routingKey q true).1.type = ex.type
    unfold exchangeBind
    split <;> rfl
  | unbind q => rfl

/-- A call keeps the pairs in step with the set. -/
theorem mem_pairs_run (call : BindCall) {pairs : Set (Nat × Bytes)}
    (h : ∀ x, x ∈ ex.pairs ↔ x ∈ pairs) (x : Nat × Bytes) :
    x ∈ (call.run ex).pairs ↔ x ∈ call.onPairs pairs := by
  cases call with
  | bind routingKey q =>
    show x ∈ (exchangeBind ex routingKey q true).1.pairs ↔ x ∈ insert (q.id, routingKey) pairs
    rw [pairs_bind, Set.mem_insert_iff, ← h]
    split
    · rename_i hOld
      exact (or_iff_right_of_imp fun hEq => hEq ▸ hOld).symm
    · rw [mem_append, mem_singleton, or_comm]
  | unbind q =>
    rw [BindCall.run, (pairs_unbind ex q).mem_iff, mem_filter, h, decide_eq_true_iff]
    rfl

theorem nodup_pairs_run (call : BindCall) (h : ex.pairs.Nodup) : (call.run ex).pairs.Nodup := by
  cases call with
  | bind routingKey q =>
    rw [BindCall.run, pairs_bind]
    split
    · exact h
    · rename_i hNew
      exact concat_eq_append ▸ h.concat hNew
  | unbind q => exact (pairs_unbind ex q).nodup_iff.mpr (h.filter _)

/-! ## Routes -/

def keyMatches (type : Nat) (key routingKey : Bytes) : Prop :=
  type = exchangeFanout ∨ type = exchangeDirect ∧ key = routingKey ∨
    type = exchangeTopic ∧ exchangeTopicMatch key routingKey = true

theorem bindingMatches_iff (ex : ExchangeObj) (bd : BindingObj) (routingKey : Bytes) :
    bindingMatches ex bd routingKey = true ↔ keyMatches ex.type bd.routingKey routingKey := by
  unfold bindingMatches keyMatches
  split_ifs <;> simp_all [exchangeFanout, exchangeDirect, exchangeTopic]

/-- The loop over the bindings takes each queue once. -/
theorem collect_targets (bds : List BindingObj) (targets : List QueueObj)
    (hNodup : (targets.map (·.id)).Nodup) : let out := bds.foldl (fun targets bd =>
      if targets.any fun q => q.id = bd.queue.id then targets else targets ++ [bd.queue]) targets
    (out.map (·.id)).Nodup ∧ ∀ id, id ∈ out.map (·.id) ↔
      id ∈ targets.map (·.id) ∨ id ∈ bds.map (·.queue.id) := by
  induction bds generalizing targets with
  | nil => simpa using hNodup
  | cons bd bds ih =>
    have hAny : (targets.any fun q => q.id = bd.queue.id) = true ↔
        bd.queue.id ∈ targets.map (·.id) := by
      simp
    simp only [foldl_cons, map_cons, mem_cons]
    by_cases hOld : bd.queue.id ∈ targets.map (·.id)
    · rw [if_pos (hAny.mpr hOld)]
      refine ⟨(ih targets hNodup).1, fun id => ?_⟩
      rw [(ih targets hNodup).2]
      -- the queue is a target already
      constructor
      · exact Or.imp_right .inr
      · rintro (h | rfl | h)
        · exact .inl h
        · exact .inl hOld
        · exact .inr h
    · rw [if_neg (mt hAny.mp hOld)]
      have hMore : ((targets ++ [bd.queue]).map (·.id)).Nodup := by
        rw [map_append]
        exact concat_eq_append ▸ hNodup.concat hOld
      refine ⟨(ih _ hMore).1, fun id => ?_⟩
      rw [(ih _ hMore).2, map_append, mem_append, or_assoc]
      simp

/-- **Bindings and routes are sets**: after any calls the exchange holds the pairs that were bound
and not unbound since, each once, and a route returns each queue with a matching key once. -/
theorem routing_set (type : Nat) (flags : UInt8) (calls : List BindCall) :
    let ex := calls.foldl BindCall.run { type, flags }
    let pairs := calls.foldl BindCall.onPairs ∅
    ex.pairs.Nodup ∧ (∀ x, x ∈ ex.pairs ↔ x ∈ pairs) ∧ ∀ routingKey,
      ((exchangeRoute ex routingKey).map (·.id)).Nodup ∧
        ∀ id, id ∈ (exchangeRoute ex routingKey).map (·.id) ↔
          ∃ key, (id, key) ∈ pairs ∧ keyMatches type key routingKey := by
  have hRun : ∀ (calls : List BindCall) (ex : ExchangeObj) (pairs : Set (Nat × Bytes)),
      ex.type = type → ex.pairs.Nodup → (∀ x, x ∈ ex.pairs ↔ x ∈ pairs) →
      (calls.foldl BindCall.run ex).type = type ∧ (calls.foldl BindCall.run ex).pairs.Nodup ∧
        ∀ x, x ∈ (calls.foldl BindCall.run ex).pairs ↔ x ∈ calls.foldl BindCall.onPairs pairs := by
    intro calls
    induction calls with
    | nil => exact fun ex pairs hType hNodup hMem => ⟨hType, hNodup, hMem⟩
    | cons call calls ih =>
      intro ex pairs hType hNodup hMem
      exact ih _ _ ((type_run ex call).trans hType) (nodup_pairs_run ex call hNodup)
        (mem_pairs_run ex call hMem)
  intro ex pairs
  obtain ⟨hType, hNodup, hMem⟩ := hRun calls { type, flags } ∅ rfl nodup_nil (by
    simp [ExchangeObj.pairs])
  refine ⟨hNodup, hMem, fun routingKey => ?_⟩
  have hTargets := collect_targets
    (ex.bindings.filter fun bd => bindingMatches ex bd routingKey) [] nodup_nil
  refine ⟨hTargets.1, fun id => (hTargets.2 id).trans ?_⟩
  simp only [map_nil, not_mem_nil, false_or, mem_map, mem_filter,
    bindingMatches_iff]
  constructor
  · rintro ⟨bd, ⟨hBound, hKey⟩, rfl⟩
    exact ⟨bd.routingKey, (hMem _).mp (mem_map.mpr ⟨bd, hBound, rfl⟩), hType ▸ hKey⟩
  · rintro ⟨key, hPair, hKey⟩
    obtain ⟨bd, hBound, hEq⟩ := mem_map.mp ((hMem _).mpr hPair)
    cases hEq
    exact ⟨bd, ⟨hBound, hType.symm ▸ hKey⟩, rfl⟩

end BeaverMQ.Objects
