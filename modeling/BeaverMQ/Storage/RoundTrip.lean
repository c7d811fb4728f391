import BeaverMQ.Model.Cluster
import BeaverMQ.Queues.View
import BeaverMQ.Storage.SnapshotFile

/-!
# BeaverMQ — a snapshot and what loading it restores

`snapshot_write` stores the topology accumulator and the replicated messages up to the base.
`persist_load` first re-enqueues the messages, which declares their queues as plain durable
ones, and then replays the accumulator, whose declares find the queues already there.
-/

namespace BeaverMQ

open List

/-! ## What is compared -/

/-- The queue under `key` comes back: the same declaration, and as its ready messages those
that were ready with an id up to `base`, in order. -/
def Restored (old new : Broker) (base : Nat) (key : Bytes) : Prop :=
  (new.queues.get key).map (fun q => (q.decl, q.ready.map (snapRecord q))) =
    (old.queues.get key).map fun q => (q.decl, (queueSnapshotRefs q base).map (snapRecord q))

/-! ## Loading the messages -/

def SnapRec.msg (r : SnapRec) : Msg where
  exchange := r.exchange
  routingKey := r.routingKey
  props := r.props
  body := r.body
  clusterId := r.clusterId

def SnapRec.key (r : SnapRec) : Bytes := vkey r.vhost r.queue

/-- The queue `snap_apply_record` declares when it finds none. -/
def SnapRec.decl (r : SnapRec) : QueueDecl := { vhost := r.vhost, name := r.queue, flags := 2 }

def Broker.Fits (b : Broker) (ms : List Msg) : Prop :=
  (b.defMaxLength = 0 ∨ ms.length ≤ b.defMaxLength) ∧
    (b.defMaxBytes = 0 ∨ (ms.map fun m => m.body.length).sum ≤ b.defMaxBytes)

instance (b : Broker) (ms : List Msg) : Decidable (b.Fits ms) :=
  inferInstanceAs (Decidable (_ ∧ _))

/-- A queue without limits of its own that rejects what does not fit. -/
def Queue.Plain (q : Queue) : Prop :=
  q.maxLength = 0 ∧ q.maxBytes = 0 ∧ q.overflow = .rejectPublish

def Broker.accept (b : Broker) (ready : List Msg) (m : Msg) : List Msg :=
  if b.Fits (ready ++ [m]) then ready ++ [m] else ready

variable {b : Broker} {q : Queue} {key : Bytes}

theorem queueWouldOverflow_plain (hPlain : q.Plain) (m : Msg) :
    queueWouldOverflow b q m.body.length = true ↔ ¬ b.Fits (q.ready ++ [m]) := by
  obtain ⟨hLen, hBytes, -⟩ := hPlain
  unfold queueWouldOverflow Broker.Fits Queue.totalBytes
  simp only [hLen, hBytes, if_true, Bool.or_eq_true, Bool.and_eq_true, decide_eq_true_eq,
    length_append, length_cons, length_nil, map_append, map_cons,
    map_nil, sum_append, sum_cons, sum_nil]
  omega

theorem queueEnqueue_plain (hPlain : q.Plain) (m : Msg) :
    queueEnqueue b q m =
      if b.Fits (q.ready ++ [m]) then some ({ q with ready := q.ready ++ [m] }, []) else none := by
  have hIff := queueWouldOverflow_plain (b := b) hPlain m
  unfold queueEnqueue
  by_cases hFits : b.Fits (q.ready ++ [m])
  · rw [if_neg (by rw [hIff]; exact not_not.mpr hFits), if_pos hFits]
  · rw [if_pos (hIff.mpr hFits), if_neg hFits, hPlain.2.2]

/-- What one record does to the queue under `key`. -/
def SnapRec.onQueue (b : Broker) (key : Bytes) (o : Option (QueueDecl × List Msg))
    (r : SnapRec) : Option (QueueDecl × List Msg) :=
  if r.key = key then
    match o with
    | some (d, ready) => some (d, b.accept ready r.msg)
    | none => some (r.decl, b.accept [] r.msg)
  else o

/-- All queues are plain, as they are while the messages are loaded. -/
def Broker.AllPlain (b : Broker) : Prop := ∀ key q, b.queues.get key = some q → q.Plain

theorem brokerEnqueue_plain (hGet : b.queues.get key = some q) (hPlain : q.Plain) (m : Msg) :
    brokerEnqueue b key m =
      if b.Fits (q.ready ++ [m]) then
        b.updQueue key fun _ => { q with ready := q.ready ++ [m] }
      else b := by
  unfold brokerEnqueue
  rw [hGet]
  dsimp only
  rw [queueEnqueue_plain hPlain]
  by_cases hFits : b.Fits (q.ready ++ [m])
  · rw [if_pos hFits, if_pos hFits]
    rfl
  · rw [if_neg hFits, if_neg hFits]

theorem snapDeclare_cases (hPlain : b.AllPlain) (r : SnapRec) :
    ∃ q, (brokerDeclareQueue b r.vhost r.queue 2).1.queues.get r.key = some q ∧
      (b.queues.get r.key = some q ∨ b.queues.get r.key = none ∧ q.decl = r.decl ∧ q.ready = []) ∧
      (brokerDeclareQueue b r.vhost r.queue 2).1.AllPlain ∧
      ∀ key, key ≠ r.key →
        (brokerDeclareQueue b r.vhost r.queue 2).1.queues.get key = b.queues.get key := by
  rcases Option.eq_none_or_eq_some (b.queues.get r.key) with hGet | ⟨q, hGet⟩
  · rw [brokerDeclareQueue_new hGet]
    refine ⟨_, (Table.get_insert _ _ _ _).trans (if_pos rfl), .inr ⟨hGet, rfl, rfl⟩, ?_, ?_⟩
    · intro key q hq
      rw [Table.get_insert] at hq
      split at hq
      · cases hq
        exact ⟨rfl, rfl, rfl⟩
      · exact hPlain key q hq
    · intro key hKey
      exact (Table.get_insert _ _ _ _).trans (if_neg hKey)
  · rw [brokerDeclareQueue_old hGet]
    exact ⟨q, hGet, .inl hGet, hPlain, fun _ _ => rfl⟩

theorem limits_snapApplyRecord (b : Broker) (r : SnapRec) :
    (snapApplyRecord b r).defMaxLength = b.defMaxLength ∧
      (snapApplyRecord b r).defMaxBytes = b.defMaxBytes := by
  have hDeclare : (brokerDeclareQueue b r.vhost r.queue 2).1.defMaxLength = b.defMaxLength ∧
      (brokerDeclareQueue b r.vhost r.queue 2).1.defMaxBytes = b.defMaxBytes := by
    rcases Option.eq_none_or_eq_some (b.queues.get (vkey r.vhost r.queue)) with hGet | ⟨q, hGet⟩
    · rw [brokerDeclareQueue_new hGet]
      exact ⟨rfl, rfl⟩
    · rw [brokerDeclareQueue_old hGet]
      exact ⟨rfl, rfl⟩
  exact brokerEnqueue_induct (P := fun b' => b'.defMaxLength = b.defMaxLength ∧
    b'.defMaxBytes = b.defMaxBytes) (fun _ _ _ _ _ _ hP _ _ => hP) _ _ _ hDeclare

/-- A message record acts on its own queue only, and makes plain ones. -/
theorem snapApplyRecord_view (hPlain : b.AllPlain) (r : SnapRec) :
    (snapApplyRecord b r).AllPlain ∧
      ∀ key, (snapApplyRecord b r).viewQ key = r.onQueue b key (b.viewQ key) := by
  obtain ⟨q, hGet, hFrom, hAll, hOthers⟩ := snapDeclare_cases hPlain r
  have hLimits : ∀ ms, (brokerDeclareQueue b r.vhost r.queue 2).1.Fits ms ↔ b.Fits ms := by
    intro ms
    unfold brokerDeclareQueue
    dsimp only
    split <;> rfl
  have hStart : r.onQueue b r.key (b.viewQ r.key) = some (q.decl, b.accept q.ready r.msg) := by
    unfold SnapRec.onQueue
    rw [if_pos rfl]
    rcases hFrom with hOld | ⟨hNone, hDecl, hReady⟩
    · rw [viewQ_eq_some hOld]
    · rw [hDecl, hReady, show b.viewQ r.key = none by unfold Broker.viewQ; rw [hNone]; rfl]
  -- a full queue drops the message and stays, whatever the key
  have hResult : ∀ key, (snapApplyRecord b r).queues.get key =
      if key = r.key then some { q with ready := b.accept q.ready r.msg } else b.queues.get key := by
    intro key
    show (brokerEnqueue (brokerDeclareQueue b r.vhost r.queue 2).1 r.key r.msg).queues.get key = _
    rw [brokerEnqueue_plain hGet (hAll _ _ hGet)]
    simp only [hLimits]
    unfold Broker.accept
    by_cases hFits : b.Fits (q.ready ++ [r.msg])
    · simp only [if_pos hFits]
      unfold Broker.updQueue
      rw [Table.get_modify, hGet]
      split
      · rfl
      · rename_i hKey
        exact hOthers key hKey
    · simp only [if_neg hFits]
      split
      · rename_i hKey
        rw [hKey, hGet]
      · rename_i hKey
        exact hOthers key hKey
  refine ⟨fun key q' hq' => ?_, fun key => ?_⟩
  · rw [hResult] at hq'
    split at hq'
    · cases hq'
      have hq := hAll _ _ hGet
      exact ⟨hq.1, hq.2.1, hq.2.2⟩
    · exact hPlain key q' hq'
  · by_cases hKey : key = r.key
    · rw [hKey, hStart]
      exact viewQ_eq_some ((hResult r.key).trans (if_pos rfl))
    · unfold SnapRec.onQueue
      rw [if_neg (Ne.symm hKey)]
      unfold Broker.viewQ
      rw [hResult, if_neg hKey]

theorem SnapRec.onQueue_congr {b b' : Broker} (hLength : b'.defMaxLength = b.defMaxLength)
    (hBytes : b'.defMaxBytes = b.defMaxBytes) (key : Bytes) (o : Option (QueueDecl × List Msg))
    (r : SnapRec) : r.onQueue b' key o = r.onQueue b key o := by
  have hFits : ∀ ms, b'.Fits ms ↔ b.Fits ms := by
    intro ms
    unfold Broker.Fits
    rw [hLength, hBytes]
  unfold SnapRec.onQueue Broker.accept
  simp only [hFits]

theorem viewQ_loadMessages (hPlain : b.AllPlain) (recs : List SnapRec) (key : Bytes) :
    (recs.foldl snapApplyRecord b).viewQ key = recs.foldl (SnapRec.onQueue b key) (b.viewQ key) := by
  suffices hGeneral : ∀ b', b'.AllPlain → b'.defMaxLength = b.defMaxLength →
      b'.defMaxBytes = b.defMaxBytes →
      (recs.foldl snapApplyRecord b').viewQ key =
        recs.foldl (SnapRec.onQueue b key) (b'.viewQ key) from hGeneral b hPlain rfl rfl
  induction recs with
  | nil => exact fun _ _ _ _ => rfl
  | cons r recs ih =>
    intro b' hAll hLength hBytes
    obtain ⟨hNext, hView⟩ := snapApplyRecord_view hAll r
    obtain ⟨hLength', hBytes'⟩ := limits_snapApplyRecord b' r
    rw [foldl_cons, foldl_cons,
      ih _ hNext (hLength'.trans hLength) (hBytes'.trans hBytes), hView,
      SnapRec.onQueue_congr hLength hBytes]

/-! ## The records of one queue -/

def Broker.Keyed (b : Broker) : Prop :=
  ∀ key q, b.queues.get key = some q → vkey q.vhost q.name = key

/-- The dump holds the messages of a queue in their order. -/
theorem liveRecords_filter (hKeyed : b.Keyed) (base : Nat) (key : Bytes) :
    (liveRecords b base).filter (fun r => r.key = key) =
      (b.queues.get key).elim [] fun q => (queueSnapshotRefs q base).map (snapRecord q) := by
  have hEntries : ∀ l : List (Sigma fun _ : Bytes => Queue), l.NodupKeys →
      (∀ e ∈ l, vkey e.2.vhost e.2.name = e.1) →
      ((l.map (·.2)).flatMap fun q => (queueSnapshotRefs q base).map (snapRecord q)).filter
          (fun r => r.key = key) =
        (l.dlookup key).elim [] fun q => (queueSnapshotRefs q base).map (snapRecord q) := by
    intro l hNodup hKeys
    induction l with
    | nil => rfl
    | cons e l ih =>
      obtain ⟨k, q⟩ := e
      obtain ⟨hNew, hRest⟩ := nodupKeys_cons.mp hNodup
      have hTail := ih hRest fun e he => hKeys e (mem_cons_of_mem _ he)
      have hKey : ∀ m, (snapRecord q m).key = k := fun m => hKeys ⟨k, q⟩ mem_cons_self
      rw [map_cons, flatMap_cons, filter_append, hTail]
      by_cases hEq : k = key
      · subst hEq
        have hNone : l.dlookup k = none := dlookup_eq_none.mpr hNew
        rw [dlookup_cons_eq, hNone, Option.elim_none, append_nil, Option.elim_some,
          filter_eq_self]
        intro r hr
        obtain ⟨m, -, rfl⟩ := mem_map.mp hr
        exact decide_eq_true (hKey m)
      · rw [dlookup_cons_ne _ _ (Ne.symm hEq), filter_eq_nil_iff.mpr, nil_append]
        intro r hr
        obtain ⟨m, -, rfl⟩ := mem_map.mp hr
        simp [hKey m, hEq]
  refine hEntries b.queues.entries b.queues.nodupKeys ?_
  rintro ⟨k, q⟩ he
  exact hKeyed k q (AList.mem_lookup_iff.mpr he)

theorem foldl_onQueue_filter (b : Broker) (key : Bytes) (recs : List SnapRec)
    (o : Option (QueueDecl × List Msg)) :
    recs.foldl (SnapRec.onQueue b key) o =
      (recs.filter fun r => r.key = key).foldl (SnapRec.onQueue b key) o := by
  induction recs generalizing o with
  | nil => rfl
  | cons r recs ih =>
    by_cases hKey : r.key = key
    · rw [filter_cons_of_pos (by simpa using hKey), foldl_cons, foldl_cons, ih]
    rw [filter_cons_of_neg (by simpa using hKey), foldl_cons, ih]
    unfold SnapRec.onQueue
    rw [if_neg hKey]

section OneQueue

variable (hKey : vkey q.vhost q.name = key)

include hKey

theorem foldl_onQueue_some (ms : List Msg) (d : QueueDecl) (ready : List Msg) :
    (ms.map (snapRecord q)).foldl (SnapRec.onQueue b key) (some (d, ready)) =
      some (d, (ms.map fun m => (snapRecord q m).msg).foldl b.accept ready) := by
  induction ms generalizing ready with
  | nil => rfl
  | cons m ms ih =>
    rw [map_cons, map_cons, foldl_cons, foldl_cons, ← ih]
    unfold SnapRec.onQueue
    rw [if_pos (show (snapRecord q m).key = key from hKey)]

theorem foldl_onQueue_none {ms : List Msg} (hSome : ms ≠ []) :
    (ms.map (snapRecord q)).foldl (SnapRec.onQueue b key) none =
      some ({ vhost := q.vhost, name := q.name, flags := 2 }
      , (ms.map fun m => (snapRecord q m).msg).foldl b.accept []) := by
  cases ms with
  | nil => exact absurd rfl hSome
  | cons m ms =>
    rw [map_cons, map_cons, foldl_cons, foldl_cons,
      show SnapRec.onQueue b key none (snapRecord q m) =
        some ((snapRecord q m).decl, b.accept [] (snapRecord q m).msg) from if_pos hKey]
    exact foldl_onQueue_some hKey ms _ _

end OneQueue

/-! ## Which messages are admitted -/

section Admitted

variable {ms : List Msg}

theorem Broker.Fits.mono {ms' : List Msg} (hFits : b.Fits ms') (hSub : ms <+: ms') : b.Fits ms := by
  obtain ⟨rest, rfl⟩ := hSub
  unfold Broker.Fits at hFits ⊢
  simp only [length_append, map_append, sum_append] at hFits
  omega

theorem foldl_accept_of_fits {ready : List Msg} (hFits : b.Fits (ready ++ ms)) :
    ms.foldl b.accept ready = ready ++ ms := by
  induction ms generalizing ready with
  | nil => simp
  | cons m ms ih =>
    rw [append_cons] at hFits ⊢
    rw [foldl_cons, show b.accept ready m = ready ++ [m] from
      if_pos (hFits.mono (prefix_append _ _))]
    exact ih hFits

theorem length_accept_le (ready : List Msg) (m : Msg) :
    (b.accept ready m).length ≤ ready.length + 1 := by
  unfold Broker.accept
  split <;> simp

theorem length_foldl_accept_le (ready ms : List Msg) :
    (ms.foldl b.accept ready).length ≤ ready.length + ms.length := by
  induction ms generalizing ready with
  | nil => exact Nat.le_refl _
  | cons m ms ih =>
    have hNext := ih (b.accept ready m)
    have hOne := length_accept_le (b := b) ready m
    rw [foldl_cons, length_cons]
    omega

theorem fits_of_length {ready : List Msg} (hSome : ms ≠ [])
    (hLength : (ms.foldl b.accept ready).length = ready.length + ms.length) :
    b.Fits (ready ++ ms) := by
  induction ms generalizing ready with
  | nil => exact absurd rfl hSome
  | cons m ms ih =>
    rw [foldl_cons, length_cons] at hLength
    by_cases hFits : b.Fits (ready ++ [m])
    · rw [show b.accept ready m = ready ++ [m] from if_pos hFits] at hLength
      rw [append_cons]
      cases ms with
      | nil => simpa using hFits
      | cons m' ms =>
        refine ih (by simp) ?_
        rw [hLength]
        simp only [length_append, length_cons, length_nil]
        omega
    · have hLe := length_foldl_accept_le (b := b) ready ms
      rw [show b.accept ready m = ready from if_neg hFits] at hLength
      omega

end Admitted

/-! ## Replaying the accumulator -/

variable {topo : List TopoRec} {fresh : Applied}

theorem viewQ_replay (hKept : ∀ r ∈ topo, r.kept = true) (s : Applied) (base : Nat) (key : Bytes) :
    (replayTopo s base topo).broker.viewQ key =
      topo.foldl (TopoRec.onQueue key) (s.broker.viewQ key) := by
  unfold replayTopo
  suffices hGeneral : ∀ s : Applied,
      (topo.foldl (fun s r => applyOp s base r.op r.data) s).broker.viewQ key =
        topo.foldl (TopoRec.onQueue key) (s.broker.viewQ key) from hGeneral { s with topo := topo }
  induction topo with
  | nil => exact fun _ => rfl
  | cons r topo ih =>
    intro s
    rw [foldl_cons, foldl_cons,
      ih (fun r hr => hKept r (mem_cons_of_mem _ hr)),
      viewQ_applyOp (hKept r mem_cons_self)]

/-- The declaration under `key` that stands at the end of the records. -/
def declaredBy (key : Bytes) (topo : List TopoRec) : Option QueueDecl :=
  topo.foldl (fun o r => match o with
    | some d => if r.deletes key then none else some d
    | none => r.declares key) none

theorem foldl_onQueue_declaredBy (key : Bytes) (topo : List TopoRec) :
    topo.foldl (TopoRec.onQueue key) none = (declaredBy key topo).map fun d => (d, []) := by
  unfold declaredBy
  suffices hGeneral : ∀ o : Option QueueDecl,
      topo.foldl (TopoRec.onQueue key) (o.map fun d => (d, [])) =
        (topo.foldl (fun o r => match o with
          | some d => if r.deletes key then none else some d
          | none => r.declares key) o).map fun d => (d, []) from hGeneral none
  induction topo with
  | nil => exact fun _ => rfl
  | cons r topo ih =>
    intro o
    rw [foldl_cons, foldl_cons, ← ih]
    cases o with
    | none => rfl
    | some d =>
      simp only [Option.map_some, TopoRec.onQueue]
      split <;> rfl

theorem foldl_onQueue_undeleted
    (hNone : ∀ r ∈ topo, r.deletes key = false) (x : QueueDecl × List Msg) :
    topo.foldl (TopoRec.onQueue key) (some x) = some x := by
  induction topo with
  | nil => rfl
  | cons r topo ih =>
    rw [foldl_cons, show TopoRec.onQueue key (some x) r = some x by
      simp [TopoRec.onQueue, hNone r mem_cons_self]]
    exact ih fun r hr => hNone r (mem_cons_of_mem _ hr)

theorem foldl_onQueue_deleted
    (hSome : ∃ r ∈ topo, r.deletes key = true) (x : QueueDecl × List Msg) :
    ∃ o : Option QueueDecl,
      topo.foldl (TopoRec.onQueue key) (some x) = o.map fun d => (d, []) := by
  induction topo with
  | nil => simp at hSome
  | cons r topo ih =>
    rw [foldl_cons]
    by_cases hDel : r.deletes key = true
    · rw [show TopoRec.onQueue key (some x) r = none by simp [TopoRec.onQueue, hDel]]
      exact ⟨_, foldl_onQueue_declaredBy key topo⟩
    rw [show TopoRec.onQueue key (some x) r = some x by simp [TopoRec.onQueue, hDel]]
    refine ih ?_
    obtain ⟨r', hMem, hr'⟩ := hSome
    rcases mem_cons.mp hMem with rfl | hMem
    · exact absurd hr' hDel
    · exact ⟨r', hMem, hr'⟩

/-! ## The round trip -/

def QueueDecl.record (d : QueueDecl) (m : Msg) : SnapRec where
  vhost := d.vhost
  queue := d.name
  exchange := m.exchange
  routingKey := m.routingKey
  props := m.props
  body := m.body
  clusterId := m.clusterId

/-- When the queue under `key` comes back. A queue with nothing in the dump is left to the
accumulator, which has to declare it as it is; a queue with a message in the dump has to be a
plain durable one that no record deletes, and its messages have to fit the process-wide
limits of the fresh broker. -/
def Restorable (fresh : Broker) (s : Applied) (base : Nat) (key : Bytes) : Prop :=
  match s.broker.queues.get key with
  | none => declaredBy key s.topo = none
  | some q =>
    if queueSnapshotRefs q base = [] then declaredBy key s.topo = some q.decl
    else q.decl = { vhost := q.vhost, name := q.name, flags := 2 } ∧
      (∀ r ∈ s.topo, r.deletes key = false) ∧ fresh.Fits (queueSnapshotRefs q base)

instance (fresh : Broker) (s : Applied) (base : Nat) (key : Bytes) :
    Decidable (Restorable fresh s base key) := by
  unfold Restorable
  split
  · infer_instance
  · split <;> infer_instance

theorem restored_iff (old new : Broker) (base : Nat) (key : Bytes) :
    Restored old new base key ↔
      (new.viewQ key).map (fun x => (x.1, x.2.map x.1.record)) =
        (old.queues.get key).map fun q =>
          (q.decl, (queueSnapshotRefs q base).map q.decl.record) := by
  unfold Restored Broker.viewQ
  rw [Option.map_map]
  rfl

theorem viewQ_loadSnapshot {s : Applied} (hFresh : fresh.broker.queues = ∅)
    (hKeyed : s.broker.Keyed) (hKept : ∀ r ∈ s.topo, r.kept = true) (base bt off : Nat)
    (key : Bytes) :
    (loadSnapshot fresh { baseIndex := base, baseTerm := bt, baseOffset := off, topo := s.topo
                          msgs := liveRecords s.broker base }).broker.viewQ key =
      s.topo.foldl (TopoRec.onQueue key)
        (((s.broker.queues.get key).elim [] fun q =>
          (queueSnapshotRefs q base).map (snapRecord q)).foldl
            (SnapRec.onQueue fresh.broker key) none) := by
  have hNone : ∀ k, fresh.broker.queues.get k = none := fun k => by rw [hFresh]; simp
  unfold loadSnapshot
  dsimp only
  rw [viewQ_replay hKept, viewQ_loadMessages (fun k q hq => by rw [hNone] at hq; cases hq),
    foldl_onQueue_filter, liveRecords_filter hKeyed,
    show fresh.broker.viewQ key = none by unfold Broker.viewQ; rw [hNone]; rfl]

theorem fits_strip (b : Broker) (q : Queue) (ms : List Msg) :
    b.Fits (ms.map fun m => (snapRecord q m).msg) ↔ b.Fits ms := by
  unfold Broker.Fits
  rw [length_map, map_map]
  rfl

/-- With messages, the declaration was made before the topology is replayed. -/
theorem restored_messages_iff (hKey : vkey q.vhost q.name = key) {ms : List Msg} (hSome : ms ≠ []) :
    (topo.foldl (TopoRec.onQueue key)
        ((ms.map (snapRecord q)).foldl (SnapRec.onQueue b key) none)).map
        (fun x => (x.1, x.2.map x.1.record)) = some (q.decl, ms.map q.decl.record) ↔
      q.decl = { vhost := q.vhost, name := q.name, flags := 2 } ∧
        (∀ r ∈ topo, r.deletes key = false) ∧ b.Fits ms := by
  rw [foldl_onQueue_none hKey hSome]
  by_cases hDel : ∃ r ∈ topo, r.deletes key = true
  · obtain ⟨o, hEnd⟩ := foldl_onQueue_deleted hDel
      (({ vhost := q.vhost, name := q.name, flags := 2 } : QueueDecl)
      , (ms.map fun m => (snapRecord q m).msg).foldl b.accept [])
    rw [hEnd]
    obtain ⟨r, hMem, hr⟩ := hDel
    refine iff_of_false (fun hEq => ?_) fun h => by simp [h.2.1 r hMem] at hr
    cases o with
    | none => cases hEq
    | some d =>
      simp only [Option.map_some, map_nil, Option.some.injEq, Prod.mk.injEq] at hEq
      exact hSome (map_eq_nil_iff.mp hEq.2.symm)
  · have hNone : ∀ r ∈ topo, r.deletes key = false := fun r hr =>
      eq_false_of_ne_true fun hTrue => hDel ⟨r, hr, hTrue⟩
    rw [foldl_onQueue_undeleted hNone, Option.map_some, Option.some.injEq, Prod.mk.injEq]
    constructor
    · rintro ⟨hDecl, hRecords⟩
      refine ⟨hDecl.symm, hNone, ?_⟩
      have hLength := congrArg length hRecords
      rw [length_map, length_map] at hLength
      rw [← fits_strip b q, ← nil_append (ms.map _)]
      refine fits_of_length (by simpa using hSome) ?_
      rw [hLength]
      simp
    · rintro ⟨hDecl, -, hFits⟩
      refine ⟨hDecl.symm, ?_⟩
      rw [foldl_accept_of_fits (by rw [nil_append]; exact (fits_strip b q ms).mpr hFits),
        nil_append, map_map]
      rfl

theorem restored_loadSnapshot_iff {s : Applied} (hFresh : fresh.broker.queues = ∅)
    (hKeyed : s.broker.Keyed) (hKept : ∀ r ∈ s.topo, r.kept = true) (base bt off : Nat)
    (key : Bytes) :
    Restored s.broker (loadSnapshot fresh
        { baseIndex := base, baseTerm := bt, baseOffset := off, topo := s.topo
          msgs := liveRecords s.broker base }).broker base key ↔
      Restorable fresh.broker s base key := by
  rw [restored_iff, viewQ_loadSnapshot hFresh hKeyed hKept]
  unfold Restorable
  rcases Option.eq_none_or_eq_some (s.broker.queues.get key) with hGet | ⟨q, hGet⟩
  · rw [hGet]
    simp only [Option.elim_none, foldl_nil, Option.map_none]
    rw [foldl_onQueue_declaredBy]
    simp
  rw [hGet]
  simp only [Option.elim_some, Option.map_some]
  by_cases hEmpty : queueSnapshotRefs q base = []
  · rw [if_pos hEmpty, hEmpty, map_nil, foldl_nil, foldl_onQueue_declaredBy]
    cases declaredBy key s.topo <;> simp
  · rw [if_neg hEmpty]
    exact restored_messages_iff (hKeyed key q hGet) hEmpty

theorem keyed_applyAll (hFresh : fresh.broker.queues = ∅)
    (log : List (Nat × TopoRec)) : (applyAll fresh log).broker.Keyed := by
  have hTopology : (applyAll fresh log).topology.Keyed := by
    rw [topology_applyAll]
    refine foldlRecOn _ _ ?_ fun t hKeyed r _ => hKeyed.step r
    intro key d hGet
    rw [topology_queues, hFresh] at hGet
    simp at hGet
  intro key q hGet
  exact hTopology key q.decl (by rw [topology_queues, hGet]; rfl)

theorem kept_applyAll (hTopo : fresh.topo = []) (log : List (Nat × TopoRec)) :
    ∀ r ∈ (applyAll fresh log).topo, r.kept = true := by
  intro r hr
  rw [topo_applyAll hTopo, Replay.mem_recorded] at hr
  exact (mem_filter.mp hr).2

/-- What `snapshot_write` stores of a node. -/
def snapOf (n : Node) (base bt off : Nat) : SnapFile where
  baseIndex := base
  baseTerm := bt
  baseOffset := off
  topo := n.applied.topo
  msgs := liveRecords n.applied.broker base

/-- For every log applied to a fresh node, every base and every key: if the fields of the file have
room, it is read as it was written, and `snapshot_write` and then `persist_load` on the fresh node
bring the queue under the key back if and only if it is restorable. -/
theorem snapshot_restores_iff {fresh n : Node} (hQueues : fresh.applied.broker.queues = ∅)
    (hTopo : fresh.applied.topo = []) {log : List (Nat × TopoRec)}
    (hApplied : n.applied = applyAll fresh.applied log) (hOut : n.out = [])
    (hIo : n.io.snapshotOk = true) (base bt off : Nat) (hFits : (snapOf n base bt off).Fits)
    (d : Disk) (key : Bytes) :
    snapshotLoad (snapOf n base bt off).bytes = some (snapOf n base bt off) ∧
    (Restored n.applied.broker
        (persistLoad fresh (d.applyAll (snapshotWrite n base bt off).1.out)).applied.broker
        base key ↔
      Restorable fresh.applied.broker n.applied base key) := by
  have hLoad : (persistLoad fresh (d.applyAll (snapshotWrite n base bt off).1.out)).applied =
      loadSnapshot fresh.applied (snapOf n base bt off) := by
    unfold snapshotWrite
    rw [if_pos hIo]
    simp only [Node.emit, hOut, nil_append, Disk.applyAll, foldl_cons, foldl_nil,
      Disk.apply]
    rfl
  rw [hLoad]
  refine ⟨snapshotLoad_bytes hFits, restored_loadSnapshot_iff hQueues ?_ ?_ base bt off key⟩
  · rw [hApplied]
    exact keyed_applyAll hQueues log
  · rw [hApplied]
    exact kept_applyAll hTopo log

def freshNode : Node := ({ nnodes := 3 } : Setup).freshNode 0

def publishQ : TopoRec :=
  ⟨ClOp.publish.code, [0, 1, 118, 0, 0, 0, 1, 113, 0, 0, 0, 0, 0, 0, 0, 1, 9]⟩

/-- The durable queue "q" of vhost "v", with room for five messages. -/
def declareLimitedQ : TopoRec :=
  ⟨ClOp.declareQueue.code, [2, 0, 1, 118, 0, 1, 113, 0] ++ [0, 0, 0, 0, 0, 0, 0, 5] ++
    [0, 0, 0, 0, 0, 0, 0, 0] ++ [0, 0, 0, 0]⟩

def nodeAfter (log : List (Nat × TopoRec)) : Node :=
  { freshNode with applied := applyAll freshNode.applied log }

/-- A plain durable queue with a message comes back. -/
theorem snapshot_restores_iff_plain :
    Restored (nodeAfter [(1, declareQ), (2, publishQ)]).applied.broker
      (persistLoad freshNode (({} : Disk).applyAll
        (snapshotWrite (nodeAfter [(1, declareQ), (2, publishQ)]) 2 1 0).1.out)).applied.broker
      2 (vkey [118] [113]) := by
  refine (snapshot_restores_iff rfl rfl rfl rfl rfl 2 1 0 ?_ {} (vkey [118] [113])).2.mpr
    (by decide +kernel)
  refine ⟨by decide, by decide, by decide, by decide +kernel, by decide +kernel,
    by decide +kernel, ?_⟩
  simp only [SnapRec.fits_iff]
  decide +kernel

/-- A queue with a limit and a message comes back without the limit; a queue that was
declared, deleted and declared again does not come back. -/
theorem snapshot_loses_policy : let limited := nodeAfter [(1, declareLimitedQ), (2, publishQ)]
    let again := nodeAfter [(1, declareQ), (2, deleteQ), (3, declareQ)]
    let load := fun n base =>
      (persistLoad freshNode (({} : Disk).applyAll (snapshotWrite n base 1 0).1.out)).applied
    (limited.applied.broker.queues.get (vkey [118] [113])).map Queue.maxLength = some 5 ∧
      ((load limited 2).broker.queues.get (vkey [118] [113])).map Queue.maxLength = some 0 ∧
      (again.applied.broker.queues.get (vkey [118] [113])).isSome = true ∧
      (load again 3).broker.queues.get (vkey [118] [113]) = none := by
  refine ⟨?_, ?_, ?_, ?_⟩ <;> decide +kernel

end BeaverMQ
