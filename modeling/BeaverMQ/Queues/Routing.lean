import BeaverMQ.Model.Broker

/-!
# BeaverMQ — enqueueing and routing

`broker_route` enqueues a message in each target queue; an enqueue that evicts may route the
evicted messages on, which may evict again. All of it is a sequence of single enqueues, so
what one enqueue preserves the whole routing preserves.
-/

namespace BeaverMQ

open List

variable {b : Broker}

/-! ## One enqueue -/

theorem dropHeadLoop_split (b : Broker) (len : Nat) (ms : List Msg) (q : Queue)
    (hReady : q.ready = ms) :
    ∃ kept, ms = (dropHeadLoop b len ms q).1 ++ kept ∧
      (dropHeadLoop b len ms q).2 = { q with ready := kept } := by
  induction ms generalizing q with
  | nil => exact ⟨[], rfl, by rw [dropHeadLoop, ← hReady]⟩
  | cons m rest ih =>
    unfold dropHeadLoop
    split
    · obtain ⟨kept, hSplit, hEq⟩ := ih { q with ready := rest } rfl
      refine ⟨kept, ?_, hEq⟩
      rw [cons_append, ← hSplit]
    · exact ⟨m :: rest, rfl, by rw [← hReady]⟩

/-- **What an enqueue does**: it evicts a front of the ring, appends the message, and hands out
the evicted messages when the queue has a dead-letter exchange. Only a full drop-head queue
evicts. -/
theorem queueEnqueue_split {q q' : Queue} {m : Msg} {out : List Msg}
    (h : queueEnqueue b q m = some (q', out)) :
    ∃ evicted kept, q.ready = evicted ++ kept ∧ q' = { q with ready := kept ++ [m] } ∧
      out = (if q.dlExchange = [] then [] else evicted) ∧
      (evicted ≠ [] → queueWouldOverflow b q m.body.length = true ∧ q.overflow = .dropHead) := by
  unfold queueEnqueue at h
  split at h
  · rename_i hOver
    cases hPolicy : q.overflow with
    | rejectPublish =>
      rw [hPolicy] at h
      cases h
    | dropHead =>
      rw [hPolicy] at h
      obtain ⟨kept, hSplit, hEq⟩ := dropHeadLoop_split b m.body.length q.ready q rfl
      simp only [Option.some.injEq, Prod.mk.injEq] at h
      refine ⟨_, kept, hSplit, ?_, h.2.symm, fun _ => ⟨hOver, rfl⟩⟩
      rw [← h.1, hEq, hPolicy]
  · simp only [Option.some.injEq, Prod.mk.injEq] at h
    exact ⟨[], q.ready, rfl, h.1.symm, by rw [← h.2, ite_self], fun hNe => absurd rfl hNe⟩

theorem queueEnqueue_queue {q q' : Queue} {m : Msg} {out : List Msg}
    (h : queueEnqueue b q m = some (q', out)) :
    ∃ kept, kept <:+ q.ready ∧ q' = { q with ready := kept ++ [m] } := by
  obtain ⟨evicted, kept, hSplit, hEq, -, -⟩ := queueEnqueue_split h
  exact ⟨kept, ⟨evicted, hSplit.symm⟩, hEq⟩

/-! ## The targets -/

/-- A queue is a target if one of its bindings matches. -/
theorem mem_exchangeRoute {ex : Exchange} {rkey key : Bytes} :
    key ∈ exchangeRoute ex rkey ↔
      ∃ bd ∈ ex.bindings, bindingMatches ex bd rkey = true ∧ bd.queue = key := by
  have hFold : ∀ (l : List Binding) (acc : List Bytes),
      key ∈ l.foldl (fun targets bd => if bd.queue ∈ targets then targets
        else targets ++ [bd.queue]) acc ↔ key ∈ acc ∨ ∃ bd ∈ l, bd.queue = key := by
    intro l
    induction l with
    | nil => simp
    | cons bd l ih =>
      intro acc
      rw [foldl_cons, ih]
      by_cases hMem : bd.queue ∈ acc
      · rw [if_pos hMem]
        constructor
        · rintro (hAcc | ⟨x, hx, rfl⟩)
          · exact .inl hAcc
          · exact .inr ⟨x, mem_cons_of_mem bd hx, rfl⟩
        · rintro (hAcc | ⟨x, hx, rfl⟩)
          · exact .inl hAcc
          · rcases mem_cons.mp hx with rfl | hx
            · exact .inl hMem
            · exact .inr ⟨x, hx, rfl⟩
      · rw [if_neg hMem]
        simp [or_assoc, eq_comm]
  unfold exchangeRoute
  rw [hFold]
  simp [and_assoc]

theorem nodup_exchangeRoute (ex : Exchange) (rkey : Bytes) : (exchangeRoute ex rkey).Nodup := by
  unfold exchangeRoute
  refine foldlRecOn _ _ (motive := List.Nodup) nodup_nil fun targets hNodup bd _ => ?_
  split
  · exact hNodup
  rename_i hNew
  exact nodup_append.mpr ⟨hNodup, nodup_singleton _, by
    intro x hx y hy hEq
    rw [mem_singleton.mp hy] at hEq
    exact hNew (hEq ▸ hx)⟩

theorem nodup_routeTargets (b : Broker) (vhost : Bytes) (m : Msg) :
    (routeTargets b vhost m).Nodup := by
  unfold routeTargets
  split
  · split
    · exact nodup_singleton _
    · exact nodup_nil
  split
  · exact nodup_exchangeRoute _ _
  · exact nodup_nil

/-! ## Routing -/

/-- One target of `broker_route`, with its dead-lettering. -/
def routeInto (fuel : Nat) (m : Msg) (b : Broker) (key : Bytes) : Broker :=
  match b.queues.get key with
  | none => b
  | some q =>
    match queueEnqueue b q m with
    | none => b
    | some (q', out) =>
      out.foldl
        (fun b old =>
          match deadLetterMsg q old with
          | none => b
          | some dm => brokerRouteFuel fuel b q.vhost dm)
        (b.updQueue key fun _ => q')

theorem brokerRouteFuel_succ (fuel : Nat) (b : Broker) (vhost : Bytes) (m : Msg) :
    brokerRouteFuel (fuel + 1) b vhost m = (routeTargets b vhost m).foldl (routeInto fuel m) b :=
  rfl

section Rule

variable {P : Broker → Prop}
  (hStep : ∀ (b : Broker) (key : Bytes) (q q' : Queue) (m : Msg) (out : List Msg), P b →
    b.queues.get key = some q → queueEnqueue b q m = some (q', out) →
    P (b.updQueue key fun _ => q'))

include hStep

/-- What every enqueue keeps, a route keeps, whatever it dead-letters. -/
theorem brokerRouteFuel_induct (fuel : Nat) (b : Broker) (vhost : Bytes) (m : Msg) (hP : P b) :
    P (brokerRouteFuel fuel b vhost m) := by
  induction fuel generalizing b vhost m with
  | zero => exact hP
  | succ fuel ih =>
    unfold brokerRouteFuel
    refine foldlRecOn _ _ hP fun b hP key _ => ?_
    split
    · exact hP
    rename_i q hGet
    split
    · exact hP
    rename_i q' out hEnq
    refine foldlRecOn _ _ (hStep b key q q' m out hP hGet hEnq) fun b hP old _ => ?_
    split
    · exact hP
    · exact ih b _ _ hP

theorem brokerRoute_induct (b : Broker) (vhost : Bytes) (m : Msg) (hP : P b) :
    P (brokerRoute b vhost m) :=
  brokerRouteFuel_induct hStep _ b vhost m hP

theorem brokerEnqueue_induct (b : Broker) (key : Bytes) (m : Msg) (hP : P b) :
    P (brokerEnqueue b key m) := by
  unfold brokerEnqueue
  split
  · exact hP
  rename_i q hGet
  split
  · exact hP
  rename_i q' out hEnq
  refine foldlRecOn _ _ (hStep b key q q' m out hP hGet hEnq) fun b hP old _ => ?_
  split
  · exact hP
  · exact brokerRoute_induct hStep b _ _ hP

end Rule

end BeaverMQ
