import BeaverMQ.Lib.RingBuffer
import BeaverMQ.Model.Broker

/-!
# BeaverMQ — the ring buffer behind a queue (`queue.c`)

`struct beaver_queue` as its lock guards it: the ring of message pointers, the byte and depth
counters, the monotonic metrics and the congestion flag with the process-wide flow alarm. It is
part of the type that the byte counter is the sum of the queued body lengths.

`queue_enqueue` is written out with its lock and its side buffer, since messages it evicts are
handed to the dead-letter callback only after the unlock. The calls that allocate are told
whether they find memory.
-/

namespace BeaverMQ

/-- `g_queue_max_length`, `g_queue_max_bytes` and `g_flow_alarm_count`. -/
structure Flow where
  maxLength : Nat := 0
  maxBytes : Nat := 0
  alarmCount : Nat := 0
  deriving DecidableEq

def bodyBytes (ms : List Msg) : Nat := (ms.map fun m => m.body.length).sum

/-- What `q->lock` guards. `hasDl` is `q->dl_fn != NULL`. -/
structure RingQueue where
  ring : RingBuffer Msg
  totalBytes : Nat
  maxLength : Nat := 0
  maxBytes : Nat := 0
  overflow : Overflow := .rejectPublish
  hasDl : Bool := false
  congested : Bool := false
  totalEnqueued : Nat := 0
  totalDequeued : Nat := 0
  totalDropped : Nat := 0
  totalRejected : Nat := 0
  bytesEq : totalBytes = bodyBytes ring.toList

namespace RingQueue

def ready (q : RingQueue) : List Msg := q.ring.toList

/-- `QUEUE_INITIAL_CAP`. -/
def initialCap : Nat := 16

/-- `queue_new`, with the limits of `queue_set_limits` and `queue_set_dead_letter`. -/
def new (maxLength maxBytes : Nat) (overflow : Overflow) (hasDl : Bool) : RingQueue where
  ring := .empty initialCap (by decide)
  totalBytes := 0
  maxLength := maxLength
  maxBytes := maxBytes
  overflow := overflow
  hasDl := hasDl
  bytesEq := rfl

def wouldOverflow (g : Flow) (q : RingQueue) (bodyLen : Nat) : Bool :=
  let maxLen := if q.maxLength = 0 then g.maxLength else q.maxLength
  let maxBytes := if q.maxBytes = 0 then g.maxBytes else q.maxBytes
  (maxLen ≠ 0 && maxLen < q.ring.count + 1) ||
    (maxBytes ≠ 0 && maxBytes < q.totalBytes + bodyLen)

/-- `over_high`: at least 90% of a limit. -/
def overHigh (g : Flow) (q : RingQueue) : Bool :=
  let maxLen := if q.maxLength = 0 then g.maxLength else q.maxLength
  let maxBytes := if q.maxBytes = 0 then g.maxBytes else q.maxBytes
  (maxLen ≠ 0 && maxLen - maxLen / 10 ≤ q.ring.count) ||
    (maxBytes ≠ 0 && maxBytes - maxBytes / 10 ≤ q.totalBytes)

/-- `under_low`: at most 75% of both limits. -/
def underLow (g : Flow) (q : RingQueue) : Bool :=
  let maxLen := if q.maxLength = 0 then g.maxLength else q.maxLength
  let maxBytes := if q.maxBytes = 0 then g.maxBytes else q.maxBytes
  (maxLen = 0 || q.ring.count ≤ maxLen - maxLen / 4) &&
    (maxBytes = 0 || q.totalBytes ≤ maxBytes - maxBytes / 4)

def updateCongestion (g : Flow) (q : RingQueue) : Flow × RingQueue :=
  if !q.congested && overHigh g q then
    ({ g with alarmCount := g.alarmCount + 1 }, { q with congested := true })
  else if q.congested && underLow g q then
    ({ g with alarmCount := g.alarmCount - 1 }, { q with congested := false })
  else (g, q)

/-- The message goes into the cell at `tail`; the ring grows when it is full. -/
def append (q : RingQueue) (m : Msg) : RingQueue :=
  { q with
    ring := q.ring.push m
    totalEnqueued := q.totalEnqueued + 1
    totalBytes := q.totalBytes + m.body.length
    bytesEq := by simp [bodyBytes, q.bytesEq] }

/-- The cell at `head` is cleared and its message leaves the byte counter. -/
def takeHead (q : RingQueue) : RingQueue :=
  { q with
    ring := q.ring.pop
    totalBytes := q.totalBytes - (q.ring.front.map fun m => m.body.length).getD 0
    bytesEq := by
      rw [RingBuffer.toList_pop, q.bytesEq, RingBuffer.front_eq]
      cases q.ring.toList with
      | nil => rfl
      | cons m ms => simp [bodyBytes] }

/-! ## `queue_enqueue` -/

/-- The return codes of `queue_enqueue` and `queue_requeue_internal`. -/
inductive Code
  | ok
  | full
  | oom

/-- The end of both: a full ring has to grow, which fails without memory. -/
def place (grows : Bool) (g : Flow) (q : RingQueue) (m : Msg) : Flow × RingQueue × Code :=
  if q.ring.count = q.ring.slots.length ∧ grows = false then (g, q, .oom)
  else
    let (g, q) := updateCongestion g (q.append m)
    (g, q, .ok)

/-- The side buffer for evicted messages: `dl` with `dl_n` messages and room for `dl_cap`, which
at first are the places of `dl_stack`, and `dl_oom`. -/
structure Side where
  msgs : List Msg := []
  cap : Nat := 8
  oom : Bool := false

/-- A full buffer is doubled if there is memory; otherwise nothing more is kept. -/
def Side.reserve (alloc : Nat → Bool) (d : Side) : Side :=
  if d.msgs.length = d.cap then
    if alloc d.cap then { d with cap := d.cap * 2 } else { d with oom := true }
  else d

/-- A call of `queue_enqueue` under way: the queue, whether the call holds `q->lock`, and its side
buffer. `letters` are the calls of the dead-letter callback so far, each with whether the lock
was held, and `unrefs` the messages it gave its reference up of. -/
structure Enqueuing where
  flow : Flow
  queue : RingQueue
  held : Bool := false
  dl : Side := {}
  letters : List (Msg × Bool) := []
  unrefs : List Msg := []

def Enqueuing.lock (s : Enqueuing) : Enqueuing := { s with held := true }

def Enqueuing.unlock (s : Enqueuing) : Enqueuing := { s with held := false }

def Enqueuing.unref (s : Enqueuing) (m : Msg) : Enqueuing := { s with unrefs := s.unrefs ++ [m] }

/-- `queue_dead_letter`: the callback of the queue, if it has one. -/
def Enqueuing.deadLetter (s : Enqueuing) (m : Msg) : Enqueuing :=
  if s.queue.hasDl then { s with letters := s.letters ++ [(m, s.held)] } else s

/-- The head is taken off the ring and kept for its dead-letter exchange, or dropped. -/
def Enqueuing.evict (alloc : Nat → Bool) (s : Enqueuing) (old : Msg) : Enqueuing :=
  let q := s.queue
  let s := { s with queue := { q.takeHead with totalDropped := q.totalDropped + 1 } }
  if q.hasDl && !s.dl.oom then
    let dl := s.dl.reserve alloc
    -- `dl[dl_n++] = old`, and the loop goes on with the next message
    if dl.oom then { s with dl := dl }.unref old
    else { s with dl := { dl with msgs := dl.msgs ++ [old] } }
  else s.unref old

/-- The eviction loop under drop-head; it ends at an empty ring. -/
def evictLoop (alloc : Nat → Bool) (bodyLen : Nat) : Nat → Enqueuing → Enqueuing
  | 0, s => s
  | k + 1, s =>
    match s.queue.ring.front with
    | none => s
    | some old =>
      if wouldOverflow s.flow s.queue bodyLen then evictLoop alloc bodyLen k (s.evict alloc old)
      else s

/-- The loop after the unlock: each kept message is dead-lettered and given up. -/
def Enqueuing.deadLetters (s : Enqueuing) : Enqueuing :=
  s.dl.msgs.foldl (fun s m => (s.deadLetter m).unref m) s

/-- `queue_enqueue`. `grows` says whether `queue_grow` finds memory, `alloc` whether the side
buffer does when it has to leave a given capacity. -/
def enqueue (grows : Bool) (alloc : Nat → Bool) (g : Flow) (q : RingQueue) (m : Msg) :
    Enqueuing × Code :=
  let s := Enqueuing.lock { flow := g, queue := q }
  let overfull := wouldOverflow g q m.body.length
  if overfull && q.overflow ≠ .dropHead then
    (Enqueuing.unlock { s with queue := { q with totalRejected := q.totalRejected + 1 } }, .full)
  else
    let s := if overfull then evictLoop alloc m.body.length q.ring.count s else s
    let (g, q, code) := place grows s.flow s.queue m
    ((Enqueuing.unlock { s with flow := g, queue := q }).deadLetters, code)

/-- `queue_requeue_internal`: the limits are not looked at. -/
def requeueInternal (grows : Bool) (g : Flow) (q : RingQueue) (m : Msg) : Flow × RingQueue × Code :=
  place grows g q m

/-! ## The other calls -/

def dequeue (g : Flow) (q : RingQueue) : Flow × RingQueue × Option Msg :=
  match q.ring.front with
  | none => (g, q, none)
  | some m =>
    let (g, q) := updateCongestion g { q.takeHead with totalDequeued := q.totalDequeued + 1 }
    (g, q, some m)

def consumed (watermark : Nat) (m : Msg) : Bool := m.clusterId ≠ 0 && m.clusterId ≤ watermark

/-- The loop of `queue_drain_consumed`, with the number of drained messages. -/
def drainLoop (watermark : Nat) : Nat → RingQueue → RingQueue × Nat
  | 0, q => (q, 0)
  | k + 1, q =>
    match q.ring.front with
    | none => (q, 0)
    | some m =>
      if consumed watermark m then
        let (q, drained) :=
          drainLoop watermark k { q.takeHead with totalDequeued := q.totalDequeued + 1 }
        (q, drained + 1)
      else (q, 0)

def drainConsumed (g : Flow) (q : RingQueue) (watermark : Nat) : Flow × RingQueue × Nat :=
  let (q, drained) := drainLoop watermark q.ring.count q
  if drained = 0 then (g, q, 0)
  else
    let (g, q) := updateCongestion g q
    (g, q, drained)

def purgeLoop : Nat → RingQueue → RingQueue
  | 0, q => q
  | k + 1, q => purgeLoop k q.takeHead

def purge (g : Flow) (q : RingQueue) : Flow × RingQueue × Nat :=
  let purged := q.ring.count
  let q := purgeLoop purged q
  let (g, q) := updateCongestion g { q with totalDequeued := q.totalDequeued + purged }
  (g, q, purged)

def snapshotRefs (q : RingQueue) (maxCid : Nat) : List Msg :=
  q.ring.cells.filterMap fun c =>
    c.filter fun m => 0 < m.clusterId && m.clusterId ≤ maxCid

end RingQueue

end BeaverMQ
