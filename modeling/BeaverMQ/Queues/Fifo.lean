import BeaverMQ.Model.RingQueue

/-!
# BeaverMQ — a queue is a first-in first-out list

What the calls of `queue.h` do to a list of messages, with what they answer, is `Fifo.Step`. The
ring follows it call by call, also when there is no memory to grow it: a call that fails leaves
the list as it was. Under drop-head an enqueue first removes the shortest front after which the
newcomer fits; a ring that gave up a message has room, so that call never fails.
-/

namespace BeaverMQ

open List

namespace RingQueue

/-! ## The list -/

/-- The limits in force: those of the queue, or else the defaults. -/
structure Limits where
  maxLen : Nat
  maxBytes : Nat
  overflow : Overflow

/-- A message of `len` bytes does not fit behind `l`. -/
def Limits.over (lim : Limits) (len : Nat) (l : List Msg) : Bool :=
  (lim.maxLen ≠ 0 && lim.maxLen < l.length + 1) ||
    (lim.maxBytes ≠ 0 && lim.maxBytes < bodyBytes l + len)

/-- `k` is the length of the shortest front of `l` without which the newcomer fits, or of all
of `l`. -/
structure Limits.Evicts (lim : Limits) (len : Nat) (l : List Msg) (k : Nat) : Prop where
  le : k ≤ l.length
  least : ∀ j < k, lim.over len (l.drop j) = true
  fits : k < l.length → lim.over len (l.drop k) = false

/-- The calls; `grows` and `alloc` say whether there is memory. -/
inductive Op
  | enqueue (m : Msg) (grows : Bool)
  | requeue (m : Msg) (grows : Bool)
  | dequeue
  | drain (watermark : Nat)
  | purge
  | snapshot (maxCid : Nat) (alloc : Bool)

inductive Reply
  | code (c : Code)
  | msg (m : Option Msg)
  | count (n : Nat)
  | refs (ms : Option (List Msg))

/-- **The abstract queue**: a list, and what each call may do to it. -/
inductive Fifo.Step (lim : Limits) (l : List Msg) : Op → Reply → List Msg → Prop
  | accept (m : Msg) (grows : Bool) (hFits : lim.over m.body.length l = false) :
      Fifo.Step lim l (.enqueue m grows) (.code .ok) (l ++ [m])
  | refuse (m : Msg) (grows : Bool) (hOver : lim.over m.body.length l = true)
      (hPolicy : lim.overflow = .rejectPublish) :
      Fifo.Step lim l (.enqueue m grows) (.code .full) l
  | evict (m : Msg) (grows : Bool) (k : Nat) (hOver : lim.over m.body.length l = true)
      (hPolicy : lim.overflow = .dropHead) (hEvicts : lim.Evicts m.body.length l k) :
      Fifo.Step lim l (.enqueue m grows) (.code .ok) (l.drop k ++ [m])
  | noRoom (m : Msg) : Fifo.Step lim l (.enqueue m false) (.code .oom) l
  | requeue (m : Msg) (grows : Bool) : Fifo.Step lim l (.requeue m grows) (.code .ok) (l ++ [m])
  | noRoomBack (m : Msg) : Fifo.Step lim l (.requeue m false) (.code .oom) l
  | dequeue : Fifo.Step lim l .dequeue (.msg l.head?) l.tail
  | drain (w : Nat) : Fifo.Step lim l (.drain w) (.count (l.takeWhile (consumed w)).length)
      (l.dropWhile (consumed w))
  | purge : Fifo.Step lim l .purge (.count l.length) []
  | snapshot (maxCid : Nat) (alloc : Bool) : Fifo.Step lim l (.snapshot maxCid alloc)
      (.refs (some (l.filter fun m => 0 < m.clusterId && m.clusterId ≤ maxCid))) l
  | noSnapshot (maxCid : Nat) : Fifo.Step lim l (.snapshot maxCid false) (.refs none) l

inductive Fifo.Steps (lim : Limits) : List Msg → List (Op × Reply) → List Msg → Prop
  | nil (l : List Msg) : Fifo.Steps lim l [] l
  | cons {l l₁ l₂ : List Msg} {op : Op} {rep : Reply} {rest : List (Op × Reply)}
      (hStep : Fifo.Step lim l op rep l₁) (hRest : Fifo.Steps lim l₁ rest l₂) :
      Fifo.Steps lim l ((op, rep) :: rest) l₂

/-! ## The ring -/

def run (s : Flow × RingQueue) : Op → Reply × Flow × RingQueue
  | .enqueue m grows =>
    let (call, code) := enqueue grows (fun _ => grows) s.1 s.2 m
    (.code code, call.flow, call.queue)
  | .requeue m grows =>
    let (g, q, code) := requeueInternal grows s.1 s.2 m
    (.code code, g, q)
  | .dequeue =>
    let (g, q, m) := dequeue s.1 s.2
    (.msg m, g, q)
  | .drain w =>
    let (g, q, n) := drainConsumed s.1 s.2 w
    (.count n, g, q)
  | .purge =>
    let (g, q, n) := purge s.1 s.2
    (.count n, g, q)
  | .snapshot maxCid alloc =>
    -- an empty queue needs no array
    if s.2.ring.count ≠ 0 ∧ alloc = false then (.refs none, s)
    else (.refs (some (s.2.snapshotRefs maxCid)), s)

def runs : Flow × RingQueue → List Op → List (Op × Reply) × Flow × RingQueue
  | s, [] => ([], s)
  | s, op :: ops =>
    let (rep, s) := run s op
    let (reps, s) := runs s ops
    ((op, rep) :: reps, s)

def limits (g : Flow) (q : RingQueue) : Limits where
  maxLen := if q.maxLength = 0 then g.maxLength else q.maxLength
  maxBytes := if q.maxBytes = 0 then g.maxBytes else q.maxBytes
  overflow := q.overflow

/-- `total_enqueued = total_dequeued + total_dropped + depth`. -/
def Counted (q : RingQueue) : Prop :=
  q.totalEnqueued = q.totalDequeued + q.totalDropped + q.ring.count

/-- `q'` is `q` without its first `k` messages, which were counted out. -/
structure Trimmed (k : Nat) (q q' : RingQueue) : Prop where
  ready : q'.ready = q.ready.drop k
  limits : ∀ g : Flow, limits g q' = limits g q
  hasDl : q'.hasDl = q.hasDl
  congested : q'.congested = q.congested
  cap : q'.ring.slots.length = q.ring.slots.length
  entered : q'.totalEnqueued = q.totalEnqueued
  left : q'.totalDequeued + q'.totalDropped = q.totalDequeued + q.totalDropped + k

variable {g : Flow} {q q' : RingQueue} {m : Msg}

theorem count_eq (r : RingQueue) : r.ring.count = r.ready.length := (r.ring.length_toList).symm

theorem ready_append (r : RingQueue) (m : Msg) : (r.append m).ready = r.ready ++ [m] :=
  r.ring.toList_push m

theorem ready_takeHead (r : RingQueue) : r.takeHead.ready = r.ready.tail := r.ring.toList_pop

theorem snapshotRefs_eq (r : RingQueue) (maxCid : Nat) : r.snapshotRefs maxCid =
    r.ready.filter fun m => 0 < m.clusterId && m.clusterId ≤ maxCid := by
  rw [snapshotRefs, RingBuffer.cells_eq, filterMap_map, ← filterMap_eq_filter]
  rfl

theorem wouldOverflow_eq (g : Flow) (q : RingQueue) (len : Nat) :
    wouldOverflow g q len = (limits g q).over len q.ready := by
  have hBytes : q.totalBytes = bodyBytes q.ready := q.bytesEq
  unfold wouldOverflow Limits.over
  rw [count_eq, hBytes]
  rfl

theorem Trimmed.counted {k : Nat} (h : Trimmed k q q') (hLe : k ≤ q.ready.length)
    (hCounted : Counted q) : Counted q' := by
  unfold Counted at *
  have hEntered := h.entered
  have hLeft := h.left
  rw [count_eq] at hCounted
  rw [count_eq, h.ready, length_drop]
  omega

theorem Trimmed.refl (q : RingQueue) : Trimmed 0 q q :=
  ⟨rfl, fun _ => rfl, rfl, rfl, rfl, rfl, rfl⟩

theorem Trimmed.cons {k : Nat} {head : RingQueue} (hHead : Trimmed 1 q head)
    (h : Trimmed k head q') : Trimmed (k + 1) q q' where
  ready := by rw [h.ready, hHead.ready, drop_drop, Nat.add_comm]
  limits := fun g => (h.limits g).trans (hHead.limits g)
  hasDl := h.hasDl.trans hHead.hasDl
  congested := h.congested.trans hHead.congested
  cap := h.cap.trans hHead.cap
  entered := h.entered.trans hHead.entered
  left := by
    have hFirst := hHead.left
    have hRest := h.left
    omega

theorem trimmed_head (q : RingQueue) :
    Trimmed 1 q { q.takeHead with totalDropped := q.totalDropped + 1 } ∧
      Trimmed 1 q { q.takeHead with totalDequeued := q.totalDequeued + 1 } := by
  have hReady : q.takeHead.ready = q.ready.drop 1 := by rw [ready_takeHead, drop_one]
  have hCap := q.ring.length_slots_pop
  refine ⟨⟨hReady, fun _ => rfl, rfl, rfl, hCap, rfl, rfl⟩,
    ⟨hReady, fun _ => rfl, rfl, rfl, hCap, rfl, ?_⟩⟩
  show q.totalDequeued + 1 + q.totalDropped = _
  omega

/-! ## The loops -/

theorem Limits.Evicts.cons {lim : Limits} {len k : Nat} {old : Msg} {rest : List Msg}
    (h : lim.Evicts len rest k) (hOver : lim.over len (old :: rest) = true) :
    lim.Evicts len (old :: rest) (k + 1) where
  le := Nat.succ_le_succ h.le
  least := by
    intro j hj
    cases j with
    | zero => exact hOver
    | succ j => exact h.least j (Nat.lt_of_succ_lt_succ hj)
  fits := fun hLt => h.fits (Nat.lt_of_succ_lt_succ hLt)

/-- The side buffer is not written beyond its end, and doubling it makes room. -/
def Side.Fits (d : Side) : Prop := d.msgs.length ≤ d.cap ∧ 0 < d.cap

theorem Side.fits_reserve (alloc : Nat → Bool) {d : Side} (h : d.Fits) :
    (d.reserve alloc).msgs = d.msgs ∧ (d.reserve alloc).Fits ∧
      ((d.reserve alloc).oom = false → d.oom = false →
        d.msgs.length < (d.reserve alloc).cap) ∧
      ((∀ c, alloc c = true) → (d.reserve alloc).oom = d.oom) := by
  obtain ⟨hLe, hPos⟩ := h
  unfold Side.reserve Side.Fits
  split
  · rename_i hFull
    split
    · exact ⟨rfl, ⟨by dsimp only; omega, by dsimp only; omega⟩, fun _ _ => by dsimp only; omega,
        fun _ => rfl⟩
    · rename_i hNone
      exact ⟨rfl, ⟨hLe, hPos⟩, fun h => (Bool.noConfusion h), fun hAll => absurd (hAll _) hNone⟩
  · rename_i hRoom
    exact ⟨rfl, ⟨hLe, hPos⟩, fun _ _ => lt_of_le_of_ne hLe hRoom, fun _ => rfl⟩

/-- What the eviction of the first `n` messages does: nothing leaves the call as long as the lock
is held, and with memory each message is kept if the queue has a dead-letter target. -/
structure Evicted (alloc : Nat → Bool) (n : Nat) (s s' : Enqueuing) : Prop where
  trimmed : Trimmed n s.queue s'.queue
  flow : s'.flow = s.flow
  held : s'.held = s.held
  letters : s'.letters = s.letters
  fits : s.dl.Fits → s'.dl.Fits
  kept : s.dl.Fits → (∀ c, alloc c = true) → s.dl.oom = false → s'.dl.oom = false ∧
    s'.dl.msgs = s.dl.msgs ++ (if s.queue.hasDl then s.queue.ready.take n else []) ∧
    s'.unrefs = s.unrefs ++ if s.queue.hasDl then [] else s.queue.ready.take n

theorem Evicted.refl (alloc : Nat → Bool) (s : Enqueuing) : Evicted alloc 0 s s :=
  ⟨.refl _, rfl, rfl, rfl, id, fun _ _ hOom => by simp [hOom]⟩

theorem evicted_head (alloc : Nat → Bool) (s : Enqueuing) {old : Msg} {rest : List Msg}
    (hReady : s.queue.ready = old :: rest) : Evicted alloc 1 s (s.evict alloc old) := by
  have hHead := (trimmed_head s.queue).1
  unfold Enqueuing.evict
  dsimp only
  split
  · rename_i hKeeps
    rw [Bool.and_eq_true, Bool.not_eq_true'] at hKeeps
    split
    · rename_i hOom
      refine ⟨hHead, rfl, rfl, rfl, fun h => (Side.fits_reserve alloc h).2.1, fun hFits hAll hOk => ?_⟩
      rw [(Side.fits_reserve alloc hFits).2.2.2 hAll, hOk] at hOom
      cases hOom
    · rename_i hOk
      have hNot := eq_false_of_ne_true hOk
      refine ⟨hHead, rfl, rfl, rfl, fun h => ?_, fun hFits _ _ => ?_⟩
      · obtain ⟨hMsgs, hFits, hRoom, -⟩ := Side.fits_reserve alloc h
        have hLt := hRoom hNot hKeeps.2
        exact ⟨by rw [hMsgs, length_append]; exact hLt, hFits.2⟩
      · simp [(Side.fits_reserve alloc hFits).1, hNot, hKeeps.1, hReady]
  · rename_i hDrops
    refine ⟨hHead, rfl, rfl, rfl, id, fun _ _ hOk => ?_⟩
    have hNoDl : s.queue.hasDl = false := by simpa [hOk] using hDrops
    simp [Enqueuing.unref, hOk, hNoDl, hReady]

theorem Evicted.cons {alloc : Nat → Bool} {n : Nat} {s t u : Enqueuing}
    (hHead : Evicted alloc 1 s t) (h : Evicted alloc n t u) : Evicted alloc (n + 1) s u where
  trimmed := hHead.trimmed.cons h.trimmed
  flow := h.flow.trans hHead.flow
  held := h.held.trans hHead.held
  letters := h.letters.trans hHead.letters
  fits := h.fits ∘ hHead.fits
  kept := by
    intro hFits hAll hOk
    obtain ⟨hOk₁, hMsgs₁, hUnrefs₁⟩ := hHead.kept hFits hAll hOk
    obtain ⟨hOk₂, hMsgs₂, hUnrefs₂⟩ := h.kept (hHead.fits hFits) hAll hOk₁
    rw [hHead.trimmed.hasDl, hHead.trimmed.ready, hMsgs₁, append_assoc] at hMsgs₂
    rw [hHead.trimmed.hasDl, hHead.trimmed.ready, hUnrefs₁, append_assoc] at hUnrefs₂
    have hTake : s.queue.ready.take 1 ++ (s.queue.ready.drop 1).take n =
        s.queue.ready.take (n + 1) := by rw [Nat.add_comm, take_add]
    refine ⟨hOk₂, hMsgs₂.trans ?_, hUnrefs₂.trans ?_⟩
    · split
      · rw [hTake]
      · rfl
    · split
      · rfl
      · rw [hTake]

/-- The loop evicts the shortest front that makes room. -/
theorem evictLoop_spec (alloc : Nat → Bool) (len : Nat) {k : Nat} {s : Enqueuing}
    (hLen : s.queue.ready.length ≤ k) :
    ∃ n, (limits s.flow s.queue).Evicts len s.queue.ready n ∧
      Evicted alloc n s (evictLoop alloc len k s) := by
  have hNone : ∀ {s : Enqueuing}, (s.queue.ready ≠ [] → wouldOverflow s.flow s.queue len = false) →
      (limits s.flow s.queue).Evicts len s.queue.ready 0 := by
    intro s hFits
    refine ⟨Nat.zero_le _, fun j hj => absurd hj (Nat.not_lt_zero j), fun hPos => ?_⟩
    rw [drop_zero, ← wouldOverflow_eq]
    exact hFits (ne_nil_of_length_pos hPos)
  -- the fuel is the length of the queue; one round evicts the head
  induction k generalizing s with
  | zero =>
    have hNil : s.queue.ready = [] := length_eq_zero_iff.mp (Nat.le_zero.mp hLen)
    exact ⟨0, hNone fun h => absurd hNil h, .refl alloc s⟩
  | succ k ih =>
    unfold evictLoop
    rw [RingBuffer.front_eq, show s.queue.ring.toList = s.queue.ready from rfl]
    cases hReady : s.queue.ready with
    | nil =>
      refine ⟨0, ?_, .refl alloc s⟩
      rw [← hReady]
      exact hNone fun h => absurd hReady h
    | cons old rest =>
      rw [head?_cons]
      dsimp only
      by_cases hOver : wouldOverflow s.flow s.queue len = true
      · rw [if_pos hOver]
        have hHead := evicted_head alloc s hReady
        have hRest : (s.evict alloc old).queue.ready = rest := by
          rw [hHead.trimmed.ready, hReady, drop_one, tail_cons]
        obtain ⟨n, hEvicts, hLoop⟩ := ih (s := s.evict alloc old)
          (by rw [hRest]; rw [hReady] at hLen; exact Nat.le_of_succ_le_succ hLen)
        rw [hRest, hHead.flow, hHead.trimmed.limits] at hEvicts
        rw [wouldOverflow_eq, hReady] at hOver
        exact ⟨n + 1, hEvicts.cons hOver, hHead.cons hLoop⟩
      · rw [if_neg hOver]
        refine ⟨0, ?_, .refl alloc s⟩
        rw [← hReady]
        exact hNone fun _ => eq_false_of_ne_true hOver

/-- After the unlock the kept messages go out in order, and nothing else changes. -/
theorem deadLetters_spec (s : Enqueuing) :
    s.deadLetters.queue = s.queue ∧ s.deadLetters.flow = s.flow ∧ s.deadLetters.held = s.held ∧
      s.deadLetters.dl = s.dl ∧
      s.deadLetters.letters =
        s.letters ++ (if s.queue.hasDl then s.dl.msgs else []).map (·, s.held) ∧
      s.deadLetters.unrefs = s.unrefs ++ s.dl.msgs := by
  unfold Enqueuing.deadLetters
  generalize s.dl.msgs = ms
  induction ms generalizing s with
  | nil => simp
  | cons m ms ih =>
    rw [foldl_cons]
    obtain ⟨hQueue, hFlow, hHeld, hDl, hLetters, hUnrefs⟩ := ih ((s.deadLetter m).unref m)
    rw [hQueue, hFlow, hHeld, hDl, hLetters, hUnrefs]
    unfold Enqueuing.unref Enqueuing.deadLetter
    cases hHas : s.queue.hasDl with
    | true | false => simp [hHas]

/-- The loop takes the front up to the watermark. -/
theorem drainLoop_spec (w : Nat) {k : Nat} (hLen : q.ready.length ≤ k) :
    (drainLoop w k q).2 = (q.ready.takeWhile (consumed w)).length ∧
      Trimmed (drainLoop w k q).2 q (drainLoop w k q).1 := by
  induction k generalizing q with
  | zero =>
    have hNil : q.ready = [] := length_eq_zero_iff.mp (Nat.le_zero.mp hLen)
    rw [hNil]
    exact ⟨rfl, .refl q⟩
  | succ k ih =>
    unfold drainLoop
    rw [RingBuffer.front_eq, show q.ring.toList = q.ready from rfl]
    cases hReady : q.ready with
    | nil => exact ⟨rfl, .refl q⟩
    | cons m rest =>
      rw [head?_cons]
      dsimp only
      by_cases hGoes : consumed w m = true
      · rw [if_pos hGoes, takeWhile_cons_of_pos hGoes]
        have hHead := (trimmed_head q).2
        have hRest : ({ q.takeHead with totalDequeued := q.totalDequeued + 1 } : RingQueue).ready =
            rest := by rw [hHead.ready, hReady, drop_one, tail_cons]
        obtain ⟨hCount, hTrim⟩ := ih
          (q := { q.takeHead with totalDequeued := q.totalDequeued + 1 })
          (by rw [hRest]; rw [hReady] at hLen; exact Nat.le_of_succ_le_succ hLen)
        rw [hRest] at hCount
        exact ⟨by rw [length_cons, hCount], hHead.cons hTrim⟩
      · rw [if_neg hGoes, takeWhile_cons_of_neg hGoes]
        exact ⟨rfl, .refl q⟩

theorem trimmed_purgeLoop (k : Nat) (q : RingQueue) :
    Trimmed k q { purgeLoop k q with totalDequeued := (purgeLoop k q).totalDequeued + k } := by
  induction k generalizing q with
  | zero => exact .refl q
  | succ k ih =>
    obtain ⟨hReady, hLimits, hDl, hFlag, hCap, hEntered, hLeft⟩ := ih q.takeHead
    refine ⟨hReady.trans ?_, hLimits, hDl, hFlag, hCap.trans q.ring.length_slots_pop, hEntered, ?_⟩
    · rw [ready_takeHead, drop_tail]
    · have hSum : (purgeLoop k q.takeHead).totalDequeued + k + (purgeLoop k q.takeHead).totalDropped =
          q.totalDequeued + q.totalDropped + k := hLeft
      show (purgeLoop k q.takeHead).totalDequeued + (k + 1) +
        (purgeLoop k q.takeHead).totalDropped = q.totalDequeued + q.totalDropped + (k + 1)
      omega

/-! ## The calls -/

def Tallies (s s' : Flow × RingQueue) : Prop :=
  s.2.congested.toNat ≤ s.1.alarmCount →
    s'.1.alarmCount + s.2.congested.toNat = s.1.alarmCount + s'.2.congested.toNat

theorem updateCongestion_eq (g : Flow) (q : RingQueue) : ∃ alarmCount congested,
    updateCongestion g q = ({ g with alarmCount }, { q with congested }) ∧
      Tallies (g, q) ({ g with alarmCount }, { q with congested }) := by
  unfold updateCongestion Tallies
  split
  · next hSets =>
    simp only [Bool.and_eq_true, Bool.not_eq_true'] at hSets
    exact ⟨_, _, rfl, fun _ => by simp [hSets.1]⟩
  split
  · next hClears =>
    rw [Bool.and_eq_true] at hClears
    refine ⟨_, _, rfl, fun hLe => ?_⟩
    simp only [hClears.1, Bool.toNat_true, Bool.toNat_false] at hLe ⊢
    omega
  · exact ⟨_, _, rfl, fun _ => rfl⟩

theorem Trimmed.tallies {k : Nat} {s' : Flow × RingQueue} (h : Trimmed k q q')
    (hAlarm : Tallies (g, q') s') : Tallies (g, q) s' := by
  unfold Tallies at hAlarm ⊢
  rwa [h.congested] at hAlarm

/-- A call whose state is `s'` and whose answer is `rep` follows the list. -/
structure Follows (s : Flow × RingQueue) (op : Op) (rep : Reply) (s' : Flow × RingQueue) :
    Prop where
  step : Fifo.Step (limits s.1 s.2) s.2.ready op rep s'.2.ready
  limits : limits s'.1 s'.2 = limits s.1 s.2
  counted : Counted s.2 → Counted s'.2
  alarm : Tallies s s'

theorem follows_place {grows : Bool} {k : Nat} {op : Op} (hTrim : Trimmed k q q')
    (hLe : k ≤ q.ready.length)
    (hOk : Fifo.Step (limits g q) q.ready op (.code .ok) (q.ready.drop k ++ [m]))
    (hOom : grows = false → q'.ring.count = q'.ring.slots.length →
      Fifo.Step (limits g q) q.ready op (.code .oom) (q.ready.drop k)) :
    Follows (g, q) op (.code (place grows g q' m).2.2)
      ((place grows g q' m).1, (place grows g q' m).2.1) := by
  unfold place
  split
  · rename_i hFull
    refine ⟨?_, hTrim.limits g, hTrim.counted hLe, fun _ => by rw [hTrim.congested]⟩
    rw [hTrim.ready]
    exact hOom hFull.2 hFull.1
  obtain ⟨alarmCount, congested, hEq, hAlarm⟩ := updateCongestion_eq g (q'.append m)
  rw [hEq]
  refine ⟨?_, hTrim.limits g, fun hCounted => ?_, hTrim.tallies hAlarm⟩
  · show Fifo.Step _ _ _ _ (q'.append m).ready
    rw [ready_append, hTrim.ready]
    exact hOk
  · have hOld := hTrim.counted hLe hCounted
    unfold Counted at hOld ⊢
    show q'.totalEnqueued + 1 = q'.totalDequeued + q'.totalDropped + (q'.append m).ring.count
    rw [count_eq, ready_append, length_append, ← count_eq, hOld]
    rfl

theorem follows_enqueue (grows : Bool) (alloc : Nat → Bool) :
    Follows (g, q) (.enqueue m grows) (.code (enqueue grows alloc g q m).2)
      ((enqueue grows alloc g q m).1.flow, (enqueue grows alloc g q m).1.queue) := by
  unfold enqueue
  dsimp only
  split
  · rename_i hFull
    rw [Bool.and_eq_true, wouldOverflow_eq, decide_eq_true_eq] at hFull
    have hPolicy : q.overflow = .rejectPublish := by
      cases h : q.overflow with
      | rejectPublish => rfl
      | dropHead => exact absurd h hFull.2
    exact ⟨.refuse m grows hFull.1 hPolicy, rfl, id, fun _ => rfl⟩
  rename_i hPolicy
  rw [(deadLetters_spec _).1, (deadLetters_spec _).2.1]
  by_cases hOver : wouldOverflow g q m.body.length = true
  · rw [if_pos hOver]
    have hDrop : q.overflow = .dropHead := by simpa [hOver] using hPolicy
    obtain ⟨k, hEvicts, hLoop⟩ := evictLoop_spec alloc m.body.length (k := q.ring.count)
      (s := Enqueuing.lock { flow := g, queue := q }) (by rw [count_eq]; rfl)
    have hTrim : Trimmed k q _ := hLoop.trimmed
    have hEvicts : (limits g q).Evicts m.body.length q.ready k := hEvicts
    rw [hLoop.flow]
    rw [wouldOverflow_eq] at hOver
    refine follows_place hTrim hEvicts.le (.evict m grows k hOver hDrop hEvicts)
      fun _ hFull => ?_
    -- a message that went left room, and an empty ring has some
    have hHead := q.ring.headLt
    have hCount := q.ring.countLe
    rw [hTrim.cap, count_eq, hTrim.ready, length_drop] at hFull
    rw [count_eq] at hCount
    have hLe := hEvicts.le
    obtain rfl : k = 0 := by omega
    have hFits := hEvicts.fits (by omega)
    rw [drop_zero, hOver] at hFits
    cases hFits
  · rw [if_neg hOver]
    have hFits : (limits g q).over m.body.length q.ready = false := by
      rw [← wouldOverflow_eq]
      exact eq_false_of_ne_true hOver
    refine follows_place (.refl q) (Nat.zero_le _) (.accept m grows hFits) fun hGrows _ => ?_
    rw [hGrows]
    exact .noRoom m

theorem follows_requeue (grows : Bool) :
    Follows (g, q) (.requeue m grows) (.code (requeueInternal grows g q m).2.2)
      ((requeueInternal grows g q m).1, (requeueInternal grows g q m).2.1) := by
  refine follows_place (.refl q) (Nat.zero_le _) (.requeue m grows) fun hGrows _ => ?_
  rw [hGrows]
  exact .noRoomBack m

theorem follows_trimmed {k : Nat} {op : Op} {rep : Reply} {l : List Msg} (hTrim : Trimmed k q q')
    (hLe : k ≤ q.ready.length) (hRest : q.ready.drop k = l)
    (hStep : Fifo.Step (limits g q) q.ready op rep l) :
    Follows (g, q) op rep (updateCongestion g q') := by
  obtain ⟨alarmCount, congested, hEq, hAlarm⟩ := updateCongestion_eq g q'
  rw [hEq]
  refine ⟨?_, hTrim.limits g, hTrim.counted hLe, hTrim.tallies hAlarm⟩
  show Fifo.Step _ _ _ _ q'.ready
  rw [hTrim.ready, hRest]
  exact hStep

theorem follows_dequeue :
    Follows (g, q) .dequeue (.msg (dequeue g q).2.2) ((dequeue g q).1, (dequeue g q).2.1) := by
  have hStep : Fifo.Step (limits g q) q.ready .dequeue _ _ := .dequeue
  unfold dequeue
  rw [RingBuffer.front_eq, show q.ring.toList = q.ready from rfl]
  cases hReady : q.ready with
  | nil =>
    refine ⟨?_, rfl, id, fun _ => rfl⟩
    show Fifo.Step _ q.ready _ (.msg none) q.ready
    rw [hReady] at hStep ⊢
    exact hStep
  | cons m rest =>
    refine follows_trimmed (trimmed_head q).2 (by simp [hReady]) drop_one ?_
    rw [hReady] at hStep ⊢
    exact hStep

theorem follows_drain (w : Nat) :
    Follows (g, q) (.drain w) (.count (drainConsumed g q w).2.2)
      ((drainConsumed g q w).1, (drainConsumed g q w).2.1) := by
  obtain ⟨hCount, hTrim⟩ := drainLoop_spec w (q := q) (k := q.ring.count) (by rw [count_eq])
  have hRest : q.ready.drop (drainLoop w q.ring.count q).2 = q.ready.dropWhile (consumed w) := by
    have hSplit := takeWhile_append_dropWhile (p := consumed w) (l := q.ready)
    nth_rewrite 1 [← hSplit]
    rw [hCount]
    exact drop_left
  have hLe : (drainLoop w q.ring.count q).2 ≤ q.ready.length := by
    rw [hCount]
    exact (takeWhile_sublist _).length_le
  have hStep : Fifo.Step (limits g q) q.ready (.drain w) _ _ := .drain w
  rw [← hCount] at hStep
  unfold drainConsumed
  dsimp only
  split
  · rename_i hNone
    rw [hNone] at hTrim hStep hRest
    exact ⟨by rw [hTrim.ready, hRest]; exact hStep, hTrim.limits g, hTrim.counted (Nat.zero_le _),
      fun _ => by rw [hTrim.congested]⟩
  · exact follows_trimmed hTrim hLe hRest hStep

theorem follows_purge :
    Follows (g, q) .purge (.count (purge g q).2.2) ((purge g q).1, (purge g q).2.1) := by
  have hStep : Fifo.Step (limits g q) q.ready .purge _ _ := .purge
  rw [← count_eq] at hStep
  refine follows_trimmed (trimmed_purgeLoop q.ring.count q) (by rw [count_eq]) ?_ hStep
  rw [count_eq, drop_length]

theorem follows_run (s : Flow × RingQueue) (op : Op) : Follows s op (run s op).1 (run s op).2 := by
  cases op with
  | enqueue m grows => exact follows_enqueue grows fun _ => grows
  | requeue m grows => exact follows_requeue grows
  | dequeue => exact follows_dequeue
  | drain w => exact follows_drain w
  | purge => exact follows_purge
  | snapshot maxCid alloc =>
    rw [run]
    split
    · rename_i hOom
      rw [hOom.2]
      exact ⟨.noSnapshot maxCid, rfl, id, fun _ => rfl⟩
    refine ⟨?_, rfl, id, fun _ => rfl⟩
    rw [snapshotRefs_eq]
    exact .snapshot maxCid alloc

theorem follows_runs (s : Flow × RingQueue) (ops : List Op) (hCounted : Counted s.2) :
    Fifo.Steps (limits s.1 s.2) s.2.ready (runs s ops).1 (runs s ops).2.2.ready ∧
      Counted (runs s ops).2.2 := by
  induction ops generalizing s with
  | nil => exact ⟨.nil _, hCounted⟩
  | cons op ops ih =>
    have hRun := follows_run s op
    obtain ⟨hSteps, hEnd⟩ := ih (run s op).2 (hRun.counted hCounted)
    rw [hRun.limits] at hSteps
    exact ⟨.cons hRun.step hSteps, hEnd⟩

/-- **A queue is a first-in first-out list**: whatever is called on a new queue, with memory or
without, each call does to the messages from the head of the ring on what it does to the list, and
answers the same; `total_bytes` is the sum of the body lengths, and what came in has gone out, was
dropped, or is there. -/
theorem ring_refines_fifo (g : Flow) (maxLength maxBytes : Nat) (overflow : Overflow)
    (hasDl : Bool) (ops : List Op) : let new := RingQueue.new maxLength maxBytes overflow hasDl
    let q := (runs (g, new) ops).2.2
    Fifo.Steps (limits g new) [] (runs (g, new) ops).1 q.ready ∧
      q.totalBytes = bodyBytes q.ready ∧
      q.totalEnqueued = q.totalDequeued + q.totalDropped + q.ring.count := by
  obtain ⟨hSteps, hCounted⟩ :=
    follows_runs (g, RingQueue.new maxLength maxBytes overflow hasDl) ops rfl
  exact ⟨hSteps, RingQueue.bytesEq _, hCounted⟩

/-! ## Drop-head -/

theorem ready_place (g : Flow) (q : RingQueue) (m : Msg) :
    (place true g q m).2.1.ready = q.ready ++ [m] ∧ (place true g q m).2.2 = .ok := by
  unfold place
  rw [if_neg (by simp)]
  obtain ⟨alarmCount, congested, hEq, -⟩ := updateCongestion_eq g (q.append m)
  rw [hEq]
  exact ⟨ready_append q m, rfl⟩

theorem hasDl_place (grows : Bool) (g : Flow) (q : RingQueue) (m : Msg) :
    (place grows g q m).2.1.hasDl = q.hasDl := by
  unfold place
  split
  · rfl
  obtain ⟨alarmCount, congested, hEq, -⟩ := updateCongestion_eq g (q.append m)
  rw [hEq]
  rfl

/-- **An enqueue under drop-head removes the shortest front after which the newcomer fits**, all of
the queue if it never does, and appends the newcomer. With a dead-letter target the callback is
called once for each removed message, in order, and never while the lock is held; every removed
message is given up once, and the side buffer is not written beyond its end. -/
theorem drop_head_minimal (g : Flow) (q : RingQueue) (m : Msg) (hPolicy : q.overflow = .dropHead) :
    let call := (enqueue true (fun _ => true) g q m).1
    ∃ k, (limits g q).Evicts m.body.length q.ready k ∧
      (enqueue true (fun _ => true) g q m).2 = .ok ∧
      call.queue.ready = q.ready.drop k ++ [m] ∧
      call.letters = (if q.hasDl then q.ready.take k else []).map (·, false) ∧
      call.unrefs = q.ready.take k ∧ call.dl.msgs.length ≤ call.dl.cap ∧ call.held = false := by
  -- the loop, which does nothing if the newcomer fits
  have hLoop : ∃ k, (limits g q).Evicts m.body.length q.ready k ∧
      Evicted (fun _ => true) k (Enqueuing.lock { flow := g, queue := q })
        (if wouldOverflow g q m.body.length then
          evictLoop (fun _ => true) m.body.length q.ring.count
            (Enqueuing.lock { flow := g, queue := q })
        else Enqueuing.lock { flow := g, queue := q }) := by
    split
    · exact evictLoop_spec _ m.body.length (k := q.ring.count)
        (s := Enqueuing.lock { flow := g, queue := q }) (by rw [count_eq]; rfl)
    · rename_i hFits
      refine ⟨0, ⟨Nat.zero_le _, fun j hj => absurd hj (Nat.not_lt_zero j), fun _ => ?_⟩, .refl _ _⟩
      rw [drop_zero, ← wouldOverflow_eq]
      exact eq_false_of_ne_true hFits
  obtain ⟨k, hEvicts, hLoop⟩ := hLoop
  have hStart : ({} : Side).Fits := ⟨Nat.zero_le _, by decide⟩
  obtain ⟨-, hMsgs, hUnrefs⟩ := hLoop.kept hStart (fun _ => rfl) rfl
  have hReady : _ = q.ready.drop k := hLoop.trimmed.ready
  have hDl : _ = q.hasDl := hLoop.trimmed.hasDl
  have hNone : _ = [] := hLoop.letters
  have hFits := (hLoop.fits hStart).1
  have hMsgs : _ = if q.hasDl then q.ready.take k else [] := hMsgs
  have hUnrefs : _ = if q.hasDl then [] else q.ready.take k := hUnrefs
  unfold enqueue
  dsimp only
  rw [if_neg (by simp [hPolicy])]
  dsimp only
  generalize (if wouldOverflow g q m.body.length then _ else _) = s at *
  obtain ⟨hQueue, -, hHeld, hSide, hLetters, hGiven⟩ := deadLetters_spec
    (Enqueuing.unlock { s with flow := (place true s.flow s.queue m).1,
                               queue := (place true s.flow s.queue m).2.1 })
  refine ⟨k, hEvicts, (ready_place ..).2, ?_, ?_, ?_, ?_, hHeld⟩
  · rw [hQueue, ← hReady]
    exact (ready_place ..).1
  · rw [hLetters]
    simp only [Enqueuing.unlock, hasDl_place, hDl, hNone, hMsgs, nil_append]
    cases q.hasDl <;> rfl
  · rw [hGiven]
    simp only [Enqueuing.unlock, hMsgs, hUnrefs]
    cases q.hasDl <;> simp
  · rw [hSide]
    exact hFits

/-- Ten messages of one byte in a queue with room for ten bytes. -/
def brimful : RingQueue :=
  ((List.range 10).map fun i => ⟨[], [], [], [UInt8.ofNat i], 0, 0⟩).foldl append
    (new 0 10 .dropHead true)

def tenBytes : Msg := ⟨[], [], [], replicate 10 0, 0, 0⟩

/-- A newcomer of ten bytes needs all the room, so the side buffer has to grow. -/
theorem drop_head_minimal_brimful :
    ∃ k, (limits {} brimful).Evicts 10 brimful.ready k ∧
      (enqueue true (fun _ => true) {} brimful tenBytes).1.letters =
        (brimful.ready.take k).map (·, false) := by
  obtain ⟨k, hEvicts, -, -, hLetters, -⟩ := drop_head_minimal {} brimful tenBytes rfl
  exact ⟨k, hEvicts, hLetters⟩

example : (enqueue true (fun _ => true) {} brimful tenBytes).1.letters =
    brimful.ready.map (·, false) := by
  decide +kernel

end RingQueue

end BeaverMQ
