import BeaverMQ.Lib.Run
import BeaverMQ.Queues.Fifo

/-!
# BeaverMQ — the ring buffer as a queue

`Model.Broker` has the ready messages of a queue as a list. Both the ring of `queue.c` and that
list follow the list of `Queues.Fifo`, so whole sequences of calls do the same to them.

`queue_drain_consumed` works from the head of the ring and stops at the first message it may not
drop: one without a cluster id, or one that was requeued in front of older ones.
-/

namespace BeaverMQ

open List

namespace RingQueue

section

variable {b : Broker} {q : Queue}

/-! ## The ring is the list -/

def listLimits (b : Broker) (q : Queue) : Limits where
  maxLen := if q.maxLength = 0 then b.defMaxLength else q.maxLength
  maxBytes := if q.maxBytes = 0 then b.defMaxBytes else q.maxBytes
  overflow := q.overflow

/-- The ring holds the ready messages of the queue, under the same limits. -/
structure Refines (b : Broker) (q : Queue) (g : Flow) (r : RingQueue) : Prop where
  ready : r.ready = q.ready
  limits : limits g r = listLimits b q

theorem queueWouldOverflow_eq (b : Broker) (q : Queue) (len : Nat) :
    queueWouldOverflow b q len = (listLimits b q).over len q.ready := rfl

theorem dropHeadLoop_eq {len k : Nat} {ms : List Msg} (hReady : q.ready = ms)
    (h : (listLimits b q).Evicts len ms k) :
    (dropHeadLoop b len ms q).2 = { q with ready := ms.drop k } := by
  induction ms generalizing q k with
  | nil =>
    show q = _
    rw [drop_nil, ← hReady]
  | cons m rest ih =>
    unfold dropHeadLoop
    rw [queueWouldOverflow_eq, hReady]
    cases k with
    | zero =>
      rw [if_neg (by simpa using h.fits (Nat.succ_pos _)), drop_zero, ← hReady]
    | succ k =>
      have hOver : (listLimits b q).over len (m :: rest) = true := h.least 0 (Nat.succ_pos k)
      rw [if_pos hOver]
      exact ih (q := { q with ready := rest }) rfl ⟨Nat.le_of_succ_le_succ h.le,
        fun j hj => h.least (j + 1) (Nat.succ_lt_succ hj), fun hLt => h.fits (Nat.succ_lt_succ hLt)⟩

/-- A call of the data plane or of the cluster loop on the queue. -/
inductive Call
  | enqueue (m : Msg)
  | requeue (m : Msg)
  | dequeue
  | drain (watermark : Nat)
  | purge

/-- The call as long as there is memory. -/
def Call.op : Call → Op
  | .enqueue m => .enqueue m true
  | .requeue m => .requeue m true
  | .dequeue => .dequeue
  | .drain w => .drain w
  | .purge => .purge

def call (s : Flow × RingQueue) (c : Call) : Flow × RingQueue := (run s c.op).2

def Call.onList (b : Broker) (q : Queue) : Call → Queue
  | .enqueue m => ((queueEnqueue b q m).map Prod.fst).getD q
  | .requeue m => queueRequeueInternal q m
  | .dequeue => { q with ready := q.ready.tail }
  | .drain w => queueDrainConsumed q w
  | .purge => queuePurge q

theorem Refines.call {s : Flow × RingQueue} (h : Refines b q s.1 s.2) (c : Call) :
    Refines b (c.onList b q) (call s c).1 (call s c).2 := by
  obtain ⟨hStep, hLimits, -, -⟩ := follows_run s c.op
  rw [h.limits] at hStep hLimits
  rw [RingQueue.call]
  rw [h.ready] at hStep
  generalize (run s c.op).1 = rep at hStep
  generalize hOut : (run s c.op).2.2.ready = out at hStep
  -- the ring takes a step of the list; the broker's queue has to take the same one
  cases c with
  | enqueue m =>
    cases hStep with
    | accept _ _ hFits =>
      have hTakes : queueEnqueue b q m = some ({ q with ready := q.ready ++ [m] }, []) := by
        rw [queueEnqueue, queueWouldOverflow_eq, hFits]
        rfl
      rw [Call.onList, hTakes]
      exact ⟨hOut, hLimits⟩
    | refuse _ _ hOver hPolicy =>
      have hNone : queueEnqueue b q m = none := by
        rw [queueEnqueue, queueWouldOverflow_eq, hOver, if_pos rfl, show q.overflow = _ from hPolicy]
      rw [Call.onList, hNone]
      exact ⟨hOut, hLimits⟩
    | evict _ _ k hOver hPolicy hEvicts =>
      have hTakes : (queueEnqueue b q m).map Prod.fst =
          some { q with ready := q.ready.drop k ++ [m] } := by
        have hDrop : q.overflow = .dropHead := hPolicy
        rw [queueEnqueue, queueWouldOverflow_eq, hOver, if_pos rfl, hDrop]
        dsimp only
        rw [Option.map_some, dropHeadLoop_eq rfl hEvicts, hDrop]
      rw [Call.onList, hTakes]
      exact ⟨hOut, hLimits⟩
  | requeue m | dequeue | drain w | purge =>
    cases hStep
    exact ⟨hOut, hLimits⟩

/-- **Any sequence of calls on a new ring is that sequence on the list**, under the same limits
and the same limits of the process. -/
theorem refines_calls (b : Broker) (q : Queue) (hasDl : Bool) (alarms : Nat) (cs : List Call) :
    let s := cs.foldl RingQueue.call (⟨b.defMaxLength, b.defMaxBytes, alarms⟩,
      .new q.maxLength q.maxBytes q.overflow hasDl)
    Refines b (cs.foldl (Call.onList b) { q with ready := [] }) s.1 s.2 := by
  suffices ∀ {q : Queue} {s : Flow × RingQueue}, Refines b q s.1 s.2 →
      Refines b (cs.foldl (Call.onList b) q) (cs.foldl RingQueue.call s).1
        (cs.foldl RingQueue.call s).2 from this ⟨rfl, rfl⟩
  induction cs with
  | nil => exact fun h => h
  | cons c cs ih => exact fun h => ih (h.call c)

/-! ## What a drain leaves -/

theorem ready_drainConsumed (g : Flow) (r : RingQueue) (w : Nat) :
    (drainConsumed g r w).2.1.ready = r.ready.dropWhile (consumed w) := by
  have hStep := (follows_run (g, r) (.drain w)).step
  generalize (run (g, r) (.drain w)).1 = rep at hStep
  generalize hOut : (run (g, r) (.drain w)).2.2.ready = out at hStep
  cases hStep
  exact hOut

theorem dropWhile_eq_filter_iff {α : Type} (p : α → Bool) (l : List α) :
    l.dropWhile p = l.filter (fun a => !p a) ↔ l.Pairwise fun a b => p b → p a := by
  induction l with
  | nil => simp
  | cons a l ih =>
    rw [pairwise_cons]
    cases ha : p a with
    | true =>
      rw [dropWhile_cons_of_pos ha, filter_cons_of_neg (by simp [ha]), ih]
      simp
    | false =>
      rw [dropWhile_cons_of_neg (by simp [ha]), filter_cons_of_pos (by simp [ha])]
      simp only [Bool.false_eq_true, imp_false, Bool.not_eq_true]
      constructor
      · -- nothing behind a message that stays may go
        intro hEq
        have hNone : ∀ b ∈ l, p b = false := by
          have hTail := (List.cons.inj hEq).2
          intro b hb
          rw [hTail] at hb
          simpa using (mem_filter.mp hb).2
        refine ⟨hNone, pairwise_iff_forall_sublist.mpr ?_⟩
        intro x y hSub hGoes
        rw [hNone y (hSub.subset (by simp))] at hGoes
        cases hGoes
      · rintro ⟨hNone, -⟩
        rw [filter_eq_self.mpr fun b hb => by simp [hNone b hb]]

/-- **A drain leaves no message up to the watermark, all others in their order, and counters
that match, exactly when every message in front of one up to the watermark is one itself.** -/
theorem drain_complete_iff (g : Flow) (r : RingQueue) (w : Nat) :
    ((∀ m ∈ (drainConsumed g r w).2.1.ready, ¬ (0 < m.clusterId ∧ m.clusterId ≤ w)) ∧
        (drainConsumed g r w).2.1.ready =
          r.ready.filter (fun m => !decide (0 < m.clusterId ∧ m.clusterId ≤ w)) ∧
        (drainConsumed g r w).2.1.ring.count = (drainConsumed g r w).2.1.ready.length ∧
        (drainConsumed g r w).2.1.totalBytes = bodyBytes (drainConsumed g r w).2.1.ready) ↔
      r.ready.Pairwise fun a b =>
        0 < b.clusterId ∧ b.clusterId ≤ w → 0 < a.clusterId ∧ a.clusterId ≤ w := by
  have hConsumed : ∀ m : Msg, consumed w m = decide (0 < m.clusterId ∧ m.clusterId ≤ w) := by
    intro m
    simp only [consumed, Bool.decide_and, Nat.pos_iff_ne_zero]
  have hIff := dropWhile_eq_filter_iff (consumed w) r.ready
  simp only [hConsumed, decide_eq_true_eq] at hIff
  rw [← hIff]
  constructor
  · rintro ⟨-, hFilter, -, -⟩
    rwa [ready_drainConsumed] at hFilter
  · intro hFront
    have hFilter := (ready_drainConsumed g r w).trans hFront
    refine ⟨?_, hFilter, count_eq _, RingQueue.bytesEq _⟩
    intro m hm
    rw [hFilter] at hm
    have hKept := (mem_filter.mp hm).2
    rwa [Bool.not_eq_true', decide_eq_false_iff_not] at hKept

/-- A local message, then a replicated one, in a queue that was empty. -/
def mixed : Flow × RingQueue :=
  [Call.enqueue ⟨[], [], [], [1], 0, 0⟩, Call.enqueue ⟨[], [], [], [2], 5, 0⟩].foldl
    RingQueue.call ({}, .new 0 0 .rejectPublish false)

/-- The local message at the head keeps the drain from the message it should drop. -/
theorem drain_stops :
    ∃ m ∈ (drainConsumed mixed.1 mixed.2 5).2.1.ready, 0 < m.clusterId ∧ m.clusterId ≤ 5 := by
  decide +kernel

end

variable {g : Flow} {q : RingQueue}

/-! ## The flow alarm

`g_flow_alarm_count` counts the congested queues. A queue is congested from 90% of a limit on
and cleared at 75%; the divisions round down, so a limit below four has one threshold for both. -/

/-- What happens to the queues of the process; `unref` is the last one of its queue. -/
inductive Change
  | declare (maxLength maxBytes : Nat) (overflow : Overflow) (hasDl : Bool)
  | op (i : Nat) (op : Op)
  | unref (i : Nat)

def change (s : Flow × List RingQueue) : Change → Option (Flow × List RingQueue)
  | .declare maxLength maxBytes overflow hasDl =>
    some (s.1, s.2 ++ [.new maxLength maxBytes overflow hasDl])
  | .op i op => s.2[i]?.map fun q => ((run (s.1, q) op).2.1, s.2.set i (run (s.1, q) op).2.2)
  | .unref i => s.2[i]?.map fun q =>
    (if q.congested then { s.1 with alarmCount := s.1.alarmCount - 1 } else s.1, s.2.eraseIdx i)

def Accounted (s : Flow × List RingQueue) : Prop :=
  s.1.alarmCount = s.2.countP fun q => q.congested

theorem countP_of_perm {qs rest : List RingQueue} (h : qs.Perm (q :: rest)) :
    qs.countP (fun q => q.congested) = rest.countP (fun q => q.congested) + q.congested.toNat := by
  rw [h.countP_eq, countP_cons]
  cases q.congested <;> rfl

/-- The sum over the queues follows every change of one. -/
theorem accounted_change {s t : Flow × List RingQueue} {e : Change} (h : Accounted s)
    (hStep : change s e = some t) : Accounted t := by
  cases e with
  | declare =>
    cases hStep
    exact h.trans (by simp [new])
  | op i op =>
    obtain ⟨q, hAt, rfl⟩ := Option.map_eq_some_iff.mp hStep
    obtain ⟨hi, rfl⟩ := List.getElem?_eq_some_iff.mp hAt
    have hOld := countP_of_perm (getElem_cons_eraseIdx_perm hi).symm
    have hNew := countP_of_perm (set_perm_cons_eraseIdx hi (run (s.1, s.2[i]) op).2.2)
    have hAlarm := (follows_run (s.1, s.2[i]) op).alarm
    unfold Tallies at hAlarm
    unfold Accounted at h ⊢
    dsimp only at hAlarm ⊢
    omega
  | unref i =>
    obtain ⟨q, hAt, rfl⟩ := Option.map_eq_some_iff.mp hStep
    obtain ⟨hi, rfl⟩ := List.getElem?_eq_some_iff.mp hAt
    have hOld := countP_of_perm (getElem_cons_eraseIdx_perm hi).symm
    unfold Accounted at h ⊢
    cases hFlag : s.2[i].congested with
    | true =>
      -- a congested queue that goes takes its count along
      rw [hFlag, Bool.toNat_true] at hOld
      rw [if_pos rfl]
      dsimp only
      omega
    | false =>
      rw [hFlag, Bool.toNat_false] at hOld
      exact h.trans hOld

/-! ## The thresholds -/

def Sets (g : Flow) (q : RingQueue) : Prop :=
  q.congested = false ∧ (updateCongestion g q).2.congested = true

def Clears (g : Flow) (q : RingQueue) : Prop :=
  q.congested = true ∧ (updateCongestion g q).2.congested = false

instance (g : Flow) (q : RingQueue) : Decidable (Sets g q) := inferInstanceAs (Decidable (_ ∧ _))

instance (g : Flow) (q : RingQueue) : Decidable (Clears g q) := inferInstanceAs (Decidable (_ ∧ _))

theorem Clears.low (h : Clears g q) :
    ((limits g q).maxLen = 0 ∨ q.ring.count ≤ (limits g q).maxLen - (limits g q).maxLen / 4) ∧
      ((limits g q).maxBytes = 0 ∨
        q.totalBytes ≤ (limits g q).maxBytes - (limits g q).maxBytes / 4) := by
  obtain ⟨hFlag, hCleared⟩ := h
  unfold updateCongestion at hCleared
  rw [hFlag] at hCleared
  split at hCleared
  · cases hCleared
  split at hCleared
  · next hLow => simpa [underLow, limits] using hLow
  · rw [hFlag] at hCleared
    cases hCleared

/-- A queue of `k` messages of `len` bytes under the limits `L` and `B`. -/
def filled (L B k len : Nat) (congested : Bool) : RingQueue :=
  { (replicate k ⟨[], [], [], replicate len 0, 0, 0⟩).foldl append (new L B .dropHead false) with
    congested }

/-- **The alarm counts the congested queues, in every run. A queue that reached a limit is
cleared strictly below where it became congested exactly when that limit is at least four.** -/
theorem flow_alarm (maxLength maxBytes : Nat) :
    (∀ s, Run.Reach change (fun _ _ _ => True) ({ maxLength, maxBytes }, []) s →
      s.1.alarmCount = s.2.countP fun q => q.congested) ∧
    (∀ L, 1 ≤ L → ((∀ g q₁ q₂, (limits g q₁).maxLen = L → (limits g q₂).maxLen = L → Sets g q₁ →
      L - L / 10 ≤ q₁.ring.count → Clears g q₂ → q₂.ring.count < q₁.ring.count) ↔ 4 ≤ L)) ∧
    ∀ B, 1 ≤ B → ((∀ g q₁ q₂, (limits g q₁).maxBytes = B → (limits g q₂).maxBytes = B →
      Sets g q₁ → B - B / 10 ≤ q₁.totalBytes → Clears g q₂ → q₂.totalBytes < q₁.totalBytes) ↔
        4 ≤ B) := by
  refine ⟨?_, ?_, ?_⟩
  · intro s hReach
    have hStart : Accounted ({ maxLength, maxBytes }, []) := rfl
    exact Run.Reach.invariant (P := Accounted) (fun _ _ _ h hStep _ => accounted_change h hStep)
      hStart hReach
  · intro L hPos
    constructor
    · intro h
      by_contra hNarrow
      have hSame := h {} (filled L 0 L 0 false) (filled L 0 L 0 true)
      obtain rfl | rfl | rfl : L = 1 ∨ L = 2 ∨ L = 3 := by omega
      all_goals exact absurd hSame (by decide +kernel)
    · intro hWide g q₁ q₂ _ hLimit _ hHigh hClears
      have hLow := hClears.low.1
      rw [hLimit] at hLow
      omega
  · intro B hPos
    constructor
    · intro h
      by_contra hNarrow
      have hSame := h {} (filled 0 B 1 B false) (filled 0 B 1 B true)
      obtain rfl | rfl | rfl : B = 1 ∨ B = 2 ∨ B = 3 := by omega
      all_goals exact absurd hSame (by decide +kernel)
    · intro hWide g q₁ q₂ _ hLimit _ hHigh hClears
      have hLow := hClears.low.2
      rw [hLimit] at hLow
      omega

theorem flow_alarm_four : ∀ g q₁ q₂, (limits g q₁).maxLen = 4 → (limits g q₂).maxLen = 4 →
    Sets g q₁ → 4 ≤ q₁.ring.count → Clears g q₂ → q₂.ring.count < q₁.ring.count :=
  ((flow_alarm 0 0).2.1 4 (by decide)).mpr le_rfl

/-- With room for one message each enqueue turns the flag over, at the same depth. -/
theorem flow_alarm_flaps : let enqueue : Change := .op 0 (.enqueue ⟨[], [], [], [], 0, 0⟩ true)
    let flags (es : List Change) := (Run.runList change ({}, []) es).map fun s =>
      s.2.map fun q => (q.congested, q.ring.count)
    flags [.declare 1 0 .dropHead false, enqueue] = some [(true, 1)] ∧
      flags [.declare 1 0 .dropHead false, enqueue, enqueue] = some [(false, 1)] := by
  decide +kernel

end RingQueue

end BeaverMQ
