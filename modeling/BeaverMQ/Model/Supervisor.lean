import BeaverMQ.Lib.Run
import BeaverMQ.Model.Types

/-!
# BeaverMQ — the supervisor process

`supervisor.c`: one process forks and watches the worker, respawns it when it dies, and stops
when it is told to. A step is one callback of its loop, or something that happens outside: a
worker ends, time passes.

A dead worker is torn down in two parts: `on_sigchld` decides whether to respawn and starts to
close the two handles of the slot, and the last of the two close callbacks acts on the decision.

Pid files, logging and the environment of the child are not modelled; an active timer may fire at
any moment.
-/

namespace BeaverMQ.Supervision

/-- `SUPERVISOR_MAX_RESTART_SAMPLES`. -/
def maxRestartSamples : Nat := 16

/-- The fields of `supervisor_config_t` that the callbacks read. -/
structure Config where
  maxRestarts : Nat := 5
  restartWindowMs : Nat := 10000
  heartbeatTimeoutMs : Nat := 6000
  nworkers : Nat := 1
  deriving DecidableEq

/-- `worker_state_t`. -/
inductive WorkerState
  | starting
  | running
  | stopping
  | dead
  deriving DecidableEq

/-- `supervised_worker_t`. `timerActive` says whether the heartbeat timer runs; `timerArmed`
is the flag the source keeps, which stays set when the timer is stopped. -/
structure Worker where
  pid : Option Nat := none
  state : WorkerState := .starting
  readFd : Bool := false
  timerArmed : Bool := false
  timerActive : Bool := false
  lastHeartbeatMs : Nat := 0
  restartTimesMs : List Nat := List.replicate maxRestartSamples 0
  restartCount : Nat := 0
  restartHead : Nat := 0
  gaveUp : Bool := false
  pendingRespawn : Bool := false
  closingHandles : Nat := 0
  deriving DecidableEq

inductive Signal
  | term
  | kill
  deriving DecidableEq

/-- `struct supervisor` and the processes around it: `live` are the running children, `exited`
those that ended and wait to be reaped, `spawned` all that were ever forked. -/
structure State where
  cfg : Config
  now : Nat := 0
  workers : List Worker
  shuttingDown : Bool := false
  deadlineActive : Bool := false
  exitCode : Nat := 0
  stopped : Bool := false
  live : List Nat := []
  exited : List Nat := []
  spawned : List Nat := []
  signals : List (Nat × Signal) := []
  deriving DecidableEq

variable (s : State)

def State.updWorker (i : Nat) (f : Worker → Worker) : State :=
  { s with workers := s.workers.modify i f }

def State.kill (pid : Nat) (sig : Signal) : State :=
  { s with signals := s.signals ++ [(pid, sig)] }

/-! ## Restart-rate limiting -/

def recordRestart (w : Worker) (nowMs : Nat) : Worker :=
  { w with
    restartTimesMs := w.restartTimesMs.set w.restartHead nowMs
    restartHead := (w.restartHead + 1) % maxRestartSamples
    restartCount := if w.restartCount < maxRestartSamples then w.restartCount + 1
                    else w.restartCount }

/-- The loop of `restart_rate_exceeded`, from the newest sample back; the first one outside
the window ends it. -/
def countInWindow (w : Worker) (windowMs nowMs : Nat) : Nat → Nat → Nat
  | 0, _ => 0
  | k + 1, i =>
    let idx := (w.restartHead + maxRestartSamples - 1 - i) % maxRestartSamples
    if windowMs < sub64 nowMs (w.restartTimesMs.getD idx 0) then 0
    else 1 + countInWindow w windowMs nowMs k (i + 1)

def restartRateExceeded (w : Worker) (windowMs maxRestarts nowMs : Nat) : Bool :=
  maxRestarts ≤ countInWindow w windowMs nowMs w.restartCount 0

/-! ## Workers -/

/-- `spawn_worker`, with the outcome of `pipe2` and `fork`: the new process, or nothing. The
flag is false for the return value -1. -/
def spawnWorker (i : Nat) (fork : Option Nat) : State × Bool :=
  match fork with
  | none => (s, false)
  | some pid =>
    let s := { s with live := s.live ++ [pid], spawned := s.spawned ++ [pid] }
    (s.updWorker i fun w =>
      { w with pid := some pid, state := .starting, readFd := true, timerArmed := false
               timerActive := false, lastHeartbeatMs := s.now, pendingRespawn := false
               closingHandles := 0 }, true)

/-- `on_heartbeat_readable`, when there was something to read. -/
def onHeartbeatReadable (i : Nat) : State :=
  s.updWorker i fun w =>
    { w with lastHeartbeatMs := s.now
             state := if w.state = .starting then .running else w.state
             timerArmed := true
             timerActive := if w.timerArmed then w.timerActive else true }

def onHeartbeatTimeout (i : Nat) : State :=
  match s.workers[i]? with
  | none => s
  | some w =>
    if sub64 s.now w.lastHeartbeatMs ≤ s.cfg.heartbeatTimeoutMs then s
    else
      let s := match w.pid with
        | some pid => s.kill pid .kill
        | none => s
      s.updWorker i fun w => { w with timerActive := false }

def checkAllWorkersSettled : State :=
  if s.workers.any fun w => w.pid.isSome || decide (0 < w.closingHandles) then s
  else
    let allGaveUp := s.workers.all (·.gaveUp)
    if !s.shuttingDown && !allGaveUp then s
    else
      let s := if !s.shuttingDown && allGaveUp then { s with exitCode := 1 } else s
      { s with deadlineActive := false, stopped := true }

/-- `on_worker_handle_closed`; `fork` is what a respawn would get. -/
def onWorkerHandleClosed (i : Nat) (fork : Option Nat) : State :=
  match s.workers[i]? with
  | none => s
  | some w =>
    let s := s.updWorker i fun w => { w with closingHandles := w.closingHandles - 1 }
    if 0 < w.closingHandles - 1 then s
    else
      let s := s.updWorker i fun w => { w with readFd := false }
      let s :=
        if w.pendingRespawn then
          match spawnWorker (s.updWorker i fun w => { w with pendingRespawn := false }) i fork with
          | (s, true) => s
          | (s, false) => s.updWorker i fun w => { w with gaveUp := true }
        else s
      checkAllWorkersSettled s

def beginWorkerTeardown (pendingRespawn : Bool) (w : Worker) : Worker :=
  { w with state := .dead, pendingRespawn, closingHandles := 2, timerActive := false }

/-! ## Signals -/

/-- What `on_sigchld` does to the slot of a worker that it reaped. -/
def reapWorker (w : Worker) : Worker :=
  let w := { w with pid := none }
  if s.shuttingDown then beginWorkerTeardown false w
  else
    let w := recordRestart w s.now
    if restartRateExceeded w s.cfg.restartWindowMs s.cfg.maxRestarts s.now then
      beginWorkerTeardown false { w with gaveUp := true }
    else beginWorkerTeardown true w

/-- One turn of the loop of `on_sigchld`. -/
def reap (pid : Nat) : State :=
  match s.workers.findIdx? (fun w => w.pid = some pid) with
  | none => s
  | some i => s.updWorker i (reapWorker s)

/-- `on_sigchld`: everything that can be reaped. -/
def onSigchld : State := s.exited.foldl reap { s with exited := [] }

/-- The pids of the workers that are alive to the supervisor. -/
def State.alive : List Nat := s.workers.filterMap (·.pid)

def onShutdownDeadline : State :=
  let s := { s with deadlineActive := false }
  if s.alive = [] then s
  else { s.alive.foldl (fun s pid => s.kill pid .kill) s with exitCode := 1 }

/-- `on_shutdown_signal`, for SIGTERM and SIGINT. -/
def onShutdownSignal : State :=
  if s.shuttingDown then s
  else
    let s := { s with shuttingDown := true }
    let alive := s.alive
    let s := alive.foldl (fun s pid => s.kill pid .term) s
    let s := { s with workers := s.workers.map fun w =>
      if w.pid.isSome then { w with state := .stopping } else w }
    if alive = [] then checkAllWorkersSettled s else { s with deadlineActive := true }

/-! ## The loop -/

inductive Event
  /-- A running child ends. -/
  | exit (pid : Nat)
  | tick (ms : Nat)
  | sigchld
  /-- SIGTERM or SIGINT is handled. -/
  | shutdown
  /-- A close callback of slot `i`; a respawn in it would get `fork`. -/
  | handleClosed (i : Nat) (fork : Option Nat)
  | heartbeat (i : Nat)
  | heartbeatTimeout (i : Nat)
  | shutdownDeadline
  deriving DecidableEq

/-- The slot has a handle that is being closed. -/
def Worker.closing (w : Worker) : Bool := decide (0 < w.closingHandles)

/-- The poll handle of the slot is open and not being closed. -/
def Worker.polled (w : Worker) : Bool := w.readFd && !w.closing

/-- One callback, or one thing that happens outside; nothing runs after `uv_stop`. A forked
child gets a pid that no child has. -/
def step (e : Event) : Option State :=
  if s.stopped then none
  else
    match e with
    | .exit pid =>
      if pid ∈ s.live then
        some { s with live := s.live.erase pid, exited := s.exited ++ [pid] }
      else none
    | .tick ms => some { s with now := s.now + ms }
    | .sigchld => some (onSigchld s)
    | .shutdown => some (onShutdownSignal s)
    | .handleClosed i fork =>
      if (s.workers[i]?).any Worker.closing ∧ ∀ pid ∈ fork, pid ∉ s.live ++ s.exited then
        some (onWorkerHandleClosed s i fork)
      else none
    | .heartbeat i =>
      if (s.workers[i]?).any Worker.polled then some (onHeartbeatReadable s i) else none
    | .heartbeatTimeout i =>
      if (s.workers[i]?).any (·.timerActive) then some (onHeartbeatTimeout s i) else none
    | .shutdownDeadline => if s.deadlineActive then some (onShutdownDeadline s) else none

/-- `supervisor_main` up to `uv_run`: it refuses any number of workers but one, and gives up
when a worker cannot be started. -/
def supervisorMain (cfg : Config) (fork : Nat → Option Nat) : Option State :=
  if cfg.nworkers ≠ 1 then none
  else
    (List.range cfg.nworkers).foldlM
      (fun s i =>
        match spawnWorker s i (fork i) with
        | (s, true) => some s
        | (_, false) => none)
      { cfg, workers := List.replicate cfg.nworkers {} }

end BeaverMQ.Supervision
