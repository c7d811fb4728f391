import BeaverMQ.Model.LockTable

/-!
# BeaverMQ — the order of the locks

The locks nest in one order: the connection list of a worker, the registry of the broker, a
queue, the pending list of a dispatcher; the proposal inbox, the access store and the rate
limiter are taken on their own; the logger comes last. `contexts` says with which locks
each function is entered, and `checked` that every body keeps to that and to the order.

Two failures break the discipline, and `sparing` leaves out just these. `on_throttle_timer`
writes to the connections of the list it has locked; a write that fails closes its connection,
which takes it off that list. And when a table of the access store cannot grow, `GROW` returns
with the write lock held.
-/

namespace BeaverMQ.Locks

open Locking

def rank : Lock → Nat
  | .conns => 0
  | .broker => 1
  | .queue => 2
  | .pending => 3
  | .propose => 4
  | .authstore => 5
  | .authlimit => 6
  | .logger => 7

/-- The failures that do no harm: a write may fail unless the connection list is locked, and
a table of the access store may not fail to grow. -/
def sparing : Failure → List Lock → Bool
  | .write, held => !held.contains .conns
  | .grow, _ => false

def contexts : Fn → List (List Lock)
  | .logLog => [[], [.broker], [.authstore], [.conns]]
  -- visitors of the registry, and what they ask a queue for
  | .sumQueueCb | .queueVisit _ | .queueMaxLength | .queueMaxBytes | .queueOverflow
  | .queueDeadLetterInfo | .queueOldestLiveClusterId | .queuePurge => [[.broker]]
  | .queueDepth => [[], [.broker]]
  -- the waiters of a queue
  | .dispatcherQueueWaiter => [[.queue]]
  | .dispatcherNotify => [[], [.queue]]
  | .authstoreSaveLocked => [[.authstore]]
  -- Connection.Unblocked, from the throttle timer
  | .protocolConnUnblock | .sendConnectionUnblocked => [[.conns]]
  | .sendMethod false | .protocolSendMethod | .beaverConnSend | .beaverConnSendOwned =>
    [[], [.conns]]
  | _ => [[]]

/-- Every function, entered with any of its contexts, acquires upwards, calls within the
contexts of its callees and gives back what it took. -/
theorem checked : Checked rank sparing contexts body := by
  intro f
  cases f with
  | queueVisit v => cases v <;> decide
  | brokerForeachQueue v => cases v <;> decide
  | sendMethod args => cases args <;> decide
  | _ => decide

theorem entry_context (r : Role) (f : Fn) (hEntry : f ∈ entries r) : [] ∈ contexts f := by
  revert f
  cases r <;> decide

/-- Some run, all of whose failures pass `ok`, acquires `l` while holding `h`. -/
def HeldWhileAcquiring (ok : Failure → List Lock → Bool) (h l : Lock) : Prop :=
  ∃ (r : Role) (t : Thread), Run.Reach (step r) (Spared ok) Thread.idle t ∧
    ∃ a ∈ t.log, h ∈ a.held ∧ a.lock = l

theorem ordered (r : Role) (t : Thread)
    (hRun : Run.Reach (step r) (Spared sparing) Thread.idle t) : Ordered rank t.log := by
  refine ordered_of_run checked ?_ hRun
  intro f hf
  exact entry_context r f (of_decide_eq_true hf)

/-- **Lock discipline.** As long as no write fails under the lock of a connection list and no
table of the access store fails to grow: no thread, in any run, asks for a lock it already
holds, and holding one lock while acquiring another never leads back to the first. -/
theorem lock_discipline (r : Role) :
    (∀ t : Thread, Run.Reach (step r) (Spared sparing) Thread.idle t →
      ∀ a ∈ t.log, a.lock ∉ a.held) ∧
    ∀ l, ¬ Relation.TransGen (HeldWhileAcquiring sparing) l l := by
  constructor
  · intro t hRun a ha hHeld
    exact Nat.lt_irrefl _ (ordered r t hRun a ha a.lock hHeld)
  · refine acyclic_of_ordered rank ?_
    rintro h l ⟨r, t, hRun, a, ha, hHeld, rfl⟩
    exact ordered r t hRun a ha h hHeld

/-- A thread that is about to take a lock holds only locks of a lower rank. -/
theorem asks_upwards {r : Role} {t : Thread} {a : Acquisition Lock}
    (hRun : Run.Reach (step r) (Spared sparing) Thread.idle t) (hAsks : asking t = some a) :
    ∀ l ∈ a.held, rank l < rank a.lock := by
  -- the next step of the thread records what it asks for
  obtain ⟨u, hNext, hMem⟩ := reach_asking hRun (fun _ k hk => by cases hk) hAsks
  exact ordered r u hNext a hMem

/-- **No deadlock.** Threads of the broker that are each about to take a lock never wait for one
another in a circle, whatever the others hold. -/
theorem no_deadlock {ι : Type} (role : ι → Role) (thread : ι → Thread) (asks : ι → Acquisition Lock)
    (hRun : ∀ i, Run.Reach (step (role i)) (Spared sparing) Thread.idle (thread i))
    (hAsks : ∀ i, asking (thread i) = some (asks i)) (i : ι) :
    ¬ Relation.TransGen (fun i j => (asks i).lock ∈ (asks j).held) i i :=
  no_circular_wait rank asks (fun j => asks_upwards (hRun j) (hAsks j)) i

/-! ## Runs -/

def plain (n : Nat) : List (Move Fn) := List.replicate n (.next false)

def taken (n : Nat) : List (Move Fn) := List.replicate n (.next true)

/-- The throttle timer tells one blocked connection that it may go on. -/
def unblocks : List (Move Fn) := .enter .onThrottleTimer :: (plain 6 ++ taken 2 ++ plain 28)

/-- The same, and `uv_write` refuses the frame: `send_method` closes the connection. -/
def unblockFails : List (Move Fn) :=
  .enter .onThrottleTimer ::
    (plain 6 ++ taken 2 ++ plain 9 ++ taken 1 ++ plain 14 ++ taken 1 ++ plain 12 ++ taken 1 ++
      plain 26)

/-- The cluster thread applies two committed operations that add a user; at the first one the
table of users cannot grow. -/
def addUserTwice : List (Move Fn) :=
  .enter .proposeAsyncCb ::
    (plain 22 ++ taken 1 ++ plain 1 ++ taken 2 ++ plain 13 ++ taken 1 ++ plain 7 ++ taken 2 ++
      plain 13 ++ taken 2 ++ plain 13 ++ taken 1 ++ plain 11)

def spares (s : Thread) (m : Move Fn) (_ : Thread) : Bool :=
  (failing s m).all fun k => sparing k s.held

theorem spared_of_spares (s : Thread) (m : Move Fn) (t : Thread) (hSpares : spares s m t = true) :
    Spared sparing s m t := by
  intro k hk
  rw [spares, hk] at hSpares
  exact hSpares

/-- The discipline at a run: the throttle timer logs while it holds the list, and nothing is
taken twice. -/
theorem lock_discipline_unblocks :
    ∃ t : Thread, Run.Reach (step .worker) (Spared sparing) Thread.idle t ∧
      (⟨.logger, .exclusive, [.conns]⟩ ∈ t.log) ∧ ∀ a ∈ t.log, a.lock ∉ a.held := by
  have hRun : (Run.runChecked (step .worker) spares Thread.idle unblocks).any
      (fun t => decide (⟨.logger, .exclusive, [.conns]⟩ ∈ t.log)) = true := by
    decide +kernel
  obtain ⟨t, hReach, hLog⟩ := Run.exists_of_runChecked spared_of_spares _ hRun
  exact ⟨t, hReach, hLog, (lock_discipline .worker).1 t hReach⟩

/-- Two threads of one worker pool: the first holds the list of connections and is about to log,
the second waits for the list. -/
theorem no_deadlock_timers : ∃ asks : Bool → Acquisition Lock,
    asks true = ⟨.logger, .exclusive, [.conns]⟩ ∧ asks false = ⟨.conns, .exclusive, []⟩ ∧
      ∀ i, ¬ Relation.TransGen (fun i j => (asks i).lock ∈ (asks j).held) i i := by
  have hLogs : (Run.runChecked (step .worker) spares Thread.idle (unblocks.take 29)).any
      (fun t => decide (asking t = some ⟨.logger, .exclusive, [.conns]⟩)) = true := by
    decide +kernel
  have hWaits : (Run.runChecked (step .worker) spares Thread.idle (unblocks.take 5)).any
      (fun t => decide (asking t = some ⟨.conns, .exclusive, []⟩)) = true := by
    decide +kernel
  obtain ⟨t, hRun₁, hAsks₁⟩ := Run.exists_of_runChecked spared_of_spares _ hLogs
  obtain ⟨u, hRun₂, hAsks₂⟩ := Run.exists_of_runChecked spared_of_spares _ hWaits
  let asks (i : Bool) : Acquisition Lock :=
    if i then ⟨.logger, .exclusive, [.conns]⟩ else ⟨.conns, .exclusive, []⟩
  refine ⟨asks, rfl, rfl,
    no_deadlock (fun _ => .worker) (fun i => if i then t else u) asks ?_ ?_⟩
  · intro i
    cases i with
    | true => exact hRun₁
    | false => exact hRun₂
  · intro i
    cases i with
    | true => exact hAsks₁
    | false => exact hAsks₂

/-- An executed run, whatever fails in it, that asks exclusively for a lock it holds. -/
theorem reacquires (r : Role) (l : Lock) (es : List (Move Fn))
    (hRun : (Run.runChecked (step r) (fun _ _ _ => true) Thread.idle es).any
      (fun t => decide (∃ a ∈ t.log, a.mode = .exclusive ∧ a.lock = l ∧ l ∈ a.held)) = true) :
    ∃ t : Thread, Run.Reach (step r) (Spared fun _ _ => true) Thread.idle t ∧
      ∃ a ∈ t.log, a.mode = .exclusive ∧ a.lock = l ∧ l ∈ a.held :=
  Run.exists_of_runChecked (fun _ _ _ _ _ _ => rfl) es hRun

/-- A worker whose throttle timer fails to write asks for the lock of its connection list a
second time; a thread in which a table of the access store failed to grow asks for the write
lock of the store a second time. -/
theorem lock_discipline_broken :
    (∃ t : Thread, Run.Reach (step .worker) (Spared fun _ _ => true) Thread.idle t ∧
      ∃ a ∈ t.log, a.mode = .exclusive ∧ a.lock = .conns ∧ .conns ∈ a.held) ∧
    ∃ t : Thread, Run.Reach (step .cluster) (Spared fun _ _ => true) Thread.idle t ∧
      ∃ a ∈ t.log, a.mode = .exclusive ∧ a.lock = .authstore ∧ .authstore ∈ a.held :=
  ⟨reacquires .worker .conns unblockFails (by decide +kernel),
    reacquires .cluster .authstore addUserTwice (by decide +kernel)⟩

end BeaverMQ.Locks
