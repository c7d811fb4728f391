import BeaverMQ.Model.Supervisor
import Mathlib.Data.List.Induction

/-!
# BeaverMQ — shutting the supervisor down

Once SIGTERM or SIGINT has been handled, no worker should be started any more, and the loop
should end with the last worker. The second part holds in every run: a slot without a
process is being closed, and its last close callback either respawns the worker or finds
nothing left to supervise. The first part does not: a dead worker's respawn is decided when it is
reaped, and a signal before its handles are closed comes too late to change that.
-/

namespace BeaverMQ.Supervision

open List

variable {s t : State} {w : Worker}

/-! ## The slot -/

/-- The supervisor runs with one slot, `w`. A worker in it has handles that are open; a slot
without a worker is being closed, and once it is closed the loop has stopped. -/
structure Inv (s : State) (w : Worker) : Prop where
  slot : s.workers = [w]
  alive : w.pid.isSome = true → w.closingHandles = 0 ∧ w.pendingRespawn = false
  pending : w.pendingRespawn = true → 0 < w.closingHandles
  settled : w.pid = none → w.closingHandles = 0 → s.stopped = true
  reason : w.pid = none → w.pendingRespawn = false → w.gaveUp = true ∨ s.shuttingDown = true
  table : ∀ pid, w.pid = some pid → pid ∈ s.live ∨ pid ∈ s.exited

/-- A slot without a worker. -/
theorem Inv.of_gone (hSlot : s.workers = [w]) (hGone : w.pid = none)
    (hPending : w.pendingRespawn = true → 0 < w.closingHandles)
    (hSettled : w.closingHandles = 0 → s.stopped = true)
    (hReason : w.pendingRespawn = false → w.gaveUp = true ∨ s.shuttingDown = true) : Inv s w where
  slot := hSlot
  alive := fun hSome => absurd hGone (Option.isSome_iff_ne_none.mp hSome)
  pending := hPending
  settled := fun _ => hSettled
  reason := fun _ => hReason
  table := fun _ hp => nomatch hGone.symm.trans hp

theorem Inv.updWorker (h : Inv s w) (f : Worker → Worker) : (s.updWorker 0 f).workers = [f w] := by
  simp only [State.updWorker, h.slot]
  rfl

theorem Inv.index {f : Worker → Bool} (h : Inv s w) {i : Nat}
    (hSome : (s.workers[i]?).any f = true) : i = 0 ∧ f w = true := by
  rw [h.slot] at hSome
  cases i with
  | zero => exact ⟨rfl, hSome⟩
  | succ i => cases hSome

theorem foldl_kill (pids : List Nat) (sig : Signal) (s : State) :
    pids.foldl (fun s pid => s.kill pid sig) s =
      { s with signals := s.signals ++ pids.map (·, sig) } := by
  induction pids generalizing s with
  | nil => simp
  | cons pid pids ih =>
    rw [foldl_cons, ih]
    simp [State.kill]

/-! ## Reaping -/

theorem reapWorker_fields (s : State) (w : Worker) :
    (reapWorker s w).pid = none ∧ (reapWorker s w).closingHandles = 2 ∧
      (s.shuttingDown = true → (reapWorker s w).pendingRespawn = false) ∧
      ((reapWorker s w).pendingRespawn = false →
        (reapWorker s w).gaveUp = true ∨ s.shuttingDown = true) := by
  unfold reapWorker
  dsimp only
  split
  · rename_i hDown
    exact ⟨rfl, rfl, fun _ => rfl, fun _ => .inr hDown⟩
  rename_i hUp
  split
  · exact ⟨rfl, rfl, fun _ => rfl, fun _ => .inl rfl⟩
  · exact ⟨rfl, rfl, fun hYes => absurd hYes hUp, nofun⟩

theorem reap_slot (hSlot : s.workers = [w]) (pid : Nat) :
    reap s pid = s ∧ w.pid ≠ some pid ∨
      ∃ w', reap s pid = { s with workers := [w'] } ∧ w.pid = some pid ∧ w'.pid = none ∧
        w'.closingHandles = 2 ∧ (s.shuttingDown = true → w'.pendingRespawn = false) ∧
        (w'.pendingRespawn = false → w'.gaveUp = true ∨ s.shuttingDown = true) := by
  unfold reap
  rw [hSlot]
  by_cases hPid : w.pid = some pid
  · refine .inr ?_
    have hFind : [w].findIdx? (fun w => decide (w.pid = some pid)) = some 0 := by
      simp [findIdx?_cons, hPid]
    rw [hFind]
    refine ⟨reapWorker s w, ?_, hPid, reapWorker_fields s w⟩
    simp only [State.updWorker, hSlot]
    rfl
  · refine .inl ⟨?_, hPid⟩
    have hFind : [w].findIdx? (fun w => decide (w.pid = some pid)) = none := by
      simp [findIdx?_cons, hPid]
    rw [hFind]

theorem inv_reap (pids : List Nat) {s : State} {w : Worker} (h : Inv { s with exited := pids } w) :
    ∃ w', pids.foldl reap s = { s with workers := [w'] } ∧
      Inv { s with workers := [w'], exited := [] } w' ∧
      (s.shuttingDown = true → w.pendingRespawn = false → w'.pendingRespawn = false) := by
  -- induction on what is left to reap: the worker is still running or among it
  induction pids generalizing s w with
  | nil => exact ⟨w, by rw [foldl_nil, ← h.slot], { h with slot := rfl }, fun _ hNo => hNo⟩
  | cons pid pids ih =>
    rw [foldl_cons]
    rcases reap_slot (s := s) h.slot pid with ⟨hSame, hOther⟩ | ⟨w', hNew, -, hGone, hTwo, hDown, hWhy⟩
    · rw [hSame]
      refine ih { h with table := fun p hp => (h.table p hp).imp_right fun hMem => ?_ }
      rcases mem_cons.mp hMem with rfl | hMem
      · exact absurd hp hOther
      · exact hMem
    rw [hNew]
    -- the slot has no process any more, and its two handles are being closed
    obtain ⟨w'', hEq, hInv, hKeep⟩ := ih (s := { s with workers := [w'] }) (w := w')
      (.of_gone rfl hGone (fun _ => by omega) (fun hZero => by omega) hWhy)
    exact ⟨w'', hEq, hInv, fun hYes _ => hKeep hYes (hDown hYes)⟩

theorem inv_onSigchld (h : Inv s w) :
    ∃ w', Inv (onSigchld s) w' ∧ (onSigchld s).spawned = s.spawned ∧
      (onSigchld s).shuttingDown = s.shuttingDown ∧
      (s.shuttingDown = true → w.pendingRespawn = false → w'.pendingRespawn = false) := by
  obtain ⟨w', hEq, hInv, hKeep⟩ := inv_reap s.exited (s := { s with exited := [] }) (w := w) h
  unfold onSigchld
  rw [hEq]
  exact ⟨w', hInv, rfl, rfl, hKeep⟩

/-! ## The end -/

/-- `check_all_workers_settled` on a slot: it stops the loop when the slot is settled for good,
and does nothing otherwise. -/
theorem check_slot (hSlot : s.workers = [w]) :
    checkAllWorkersSettled s = s ∧ (w.pid.isSome = true ∨ 0 < w.closingHandles ∨
        (s.shuttingDown = false ∧ w.gaveUp = false)) ∨
      ∃ code, checkAllWorkersSettled s =
        { s with exitCode := code, deadlineActive := false, stopped := true } := by
  have hAny : (s.workers.any fun w => w.pid.isSome || decide (0 < w.closingHandles)) =
      (w.pid.isSome || decide (0 < w.closingHandles)) := by
    rw [hSlot, any_cons, any_nil, Bool.or_false]
  have hAll : s.workers.all (·.gaveUp) = w.gaveUp := by
    rw [hSlot, all_cons, all_nil, Bool.and_true]
  unfold checkAllWorkersSettled
  simp only [hAny, hAll, Bool.or_eq_true, decide_eq_true_eq]
  split
  · rename_i hBusy
    exact .inl ⟨rfl, hBusy.imp_right .inl⟩
  split
  · rename_i hMore
    rw [Bool.and_eq_true, Bool.not_eq_true', Bool.not_eq_true'] at hMore
    exact .inl ⟨rfl, .inr (.inr hMore)⟩
  refine .inr ?_
  split
  · exact ⟨1, rfl⟩
  · exact ⟨s.exitCode, rfl⟩

theorem inv_check {v : Worker} (h : Inv { s with stopped := true } v) :
    Inv (checkAllWorkersSettled s) v ∧ (checkAllWorkersSettled s).spawned = s.spawned ∧
      (checkAllWorkersSettled s).shuttingDown = s.shuttingDown := by
  obtain ⟨hSlot, hAlive, hPending, -, hReason, hTable⟩ := h
  rcases check_slot (s := s) hSlot with ⟨hSame, hWhy⟩ | ⟨code, hEq⟩
  · rw [hSame]
    refine ⟨⟨hSlot, hAlive, hPending, fun hNone hZero => ?_, hReason, hTable⟩, rfl, rfl⟩
    -- a settled slot has a reason, so the check did not pass over it
    have hNo : v.pendingRespawn = false := by
      by_contra hYes
      have := hPending (by simpa using hYes)
      omega
    rcases hWhy with hSome | hClosing | ⟨hRun, hGave⟩
    · rw [hNone] at hSome
      cases hSome
    · omega
    · rcases hReason hNone hNo with hUp | hDown
      · rw [hGave] at hUp
        cases hUp
      · rw [hRun] at hDown
        cases hDown
  · rw [hEq]
    exact ⟨⟨hSlot, hAlive, hPending, fun _ _ => rfl, hReason, hTable⟩, rfl, rfl⟩

/-- `on_worker_handle_closed` on a slot that is being closed; a worker is spawned only when its
respawn was pending. -/
theorem inv_onWorkerHandleClosed (h : Inv s w) (hClosing : 0 < w.closingHandles)
    (fork : Option Nat) :
    ∃ w', Inv (onWorkerHandleClosed s 0 fork) w' ∧
      (onWorkerHandleClosed s 0 fork).shuttingDown = s.shuttingDown ∧
      (w.pendingRespawn = false → (onWorkerHandleClosed s 0 fork).spawned = s.spawned ∧
        w'.pendingRespawn = false) := by
  have hGone : w.pid = none := by
    cases hPid : w.pid with
    | none => rfl
    | some pid =>
      have := (h.alive (by rw [hPid]; rfl)).1
      omega
  have hAt : s.workers[0]? = some w := by rw [h.slot]; rfl
  have hMod : ∀ (s' : State) (w' : Worker) (f : Worker → Worker), s'.workers = [w'] →
      s'.updWorker 0 f = { s' with workers := [f w'] } := by
    intro s' w' f hs
    simp only [State.updWorker, hs]
    rfl
  unfold onWorkerHandleClosed
  rw [hAt]
  dsimp only
  rw [hMod s w _ h.slot]
  by_cases hMore : 0 < w.closingHandles - 1
  · rw [if_pos hMore]
    exact ⟨{ w with closingHandles := w.closingHandles - 1 }, .of_gone rfl hGone (fun _ => hMore)
      (fun hZero => absurd hZero hMore.ne') (h.reason hGone), rfl, fun hNo => ⟨rfl, hNo⟩⟩
  · rw [if_neg hMore, hMod _ _ _ rfl]
    dsimp only
    by_cases hRespawn : w.pendingRespawn = true
    · rw [if_pos hRespawn, hMod _ _ _ rfl]
      have hBut : w.pendingRespawn ≠ false := by
        rw [hRespawn]
        decide
      cases fork with
      | none =>
        -- the respawn fails and the worker is given up
        let w' : Worker := { w with closingHandles := w.closingHandles - 1, readFd := false
                                    pendingRespawn := false, gaveUp := true }
        obtain ⟨hInv, -, hDown⟩ := inv_check (s := { s with workers := [w'] }) (v := w')
          (.of_gone rfl hGone nofun (fun _ => rfl) fun _ => .inl rfl)
        exact ⟨w', hInv, hDown, fun hNo => absurd hNo hBut⟩
      | some pid =>
        let w' : Worker := { w with closingHandles := 0, readFd := true, pendingRespawn := false
                                    pid := some pid, state := .starting, timerArmed := false
                                    timerActive := false, lastHeartbeatMs := s.now }
        obtain ⟨hInv, -, hDown⟩ := inv_check
          (s := { s with workers := [w'], live := s.live ++ [pid], spawned := s.spawned ++ [pid] })
          (v := w') ⟨rfl, fun _ => ⟨rfl, rfl⟩, nofun, fun _ _ => rfl, nofun,
          fun p hp => .inl (by cases hp; exact mem_append_right _ (mem_singleton_self _))⟩
        exact ⟨w', hInv, hDown, fun hNo => absurd hNo hBut⟩
    · have hNo : w.pendingRespawn = false := eq_false_of_ne_true hRespawn
      rw [if_neg hRespawn]
      let w' : Worker := { w with closingHandles := w.closingHandles - 1, readFd := false }
      obtain ⟨hInv, hSpawned, hDown⟩ := inv_check (s := { s with workers := [w'] }) (v := w')
        (.of_gone rfl hGone (fun hYes => absurd hYes hRespawn) (fun _ => rfl) (h.reason hGone))
      exact ⟨w', hInv, hDown, fun _ => ⟨hSpawned, hNo⟩⟩

theorem inv_onShutdownSignal (h : Inv s w) :
    ∃ w', Inv (onShutdownSignal s) w' ∧ (onShutdownSignal s).spawned = s.spawned ∧
      (onShutdownSignal s).shuttingDown = true ∧ w'.pendingRespawn = w.pendingRespawn := by
  unfold onShutdownSignal
  by_cases hDown : s.shuttingDown = true
  · rw [if_pos hDown]
    exact ⟨w, h, rfl, hDown, rfl⟩
  rw [if_neg hDown]
  dsimp only
  rw [foldl_kill]
  cases hPid : w.pid with
  | none =>
    have hAlive : State.alive { s with shuttingDown := true } = [] := by
      simp [State.alive, h.slot, hPid]
    rw [hAlive, if_pos rfl]
    obtain ⟨hInv, hSpawned, hYes⟩ := inv_check (v := w)
      (s := { s with shuttingDown := true, signals := s.signals ++ [], workers :=
        s.workers.map fun w => if w.pid.isSome then { w with state := .stopping } else w })
      ⟨by simp [h.slot, hPid], h.alive, h.pending, fun _ _ => rfl, fun _ _ => .inr rfl, h.table⟩
    exact ⟨w, hInv, hSpawned, hYes, rfl⟩
  | some pid =>
    have hAlive : State.alive { s with shuttingDown := true } = [pid] := by
      simp [State.alive, h.slot, hPid]
    rw [hAlive, if_neg (cons_ne_nil _ _)]
    refine ⟨{ w with state := .stopping }, ?_, rfl, rfl, rfl⟩
    exact { h with slot := by simp [h.slot, hPid], reason := fun _ _ => .inr rfl }

/-! ## Steps -/

/-- What a step leaves of the slot: without a pending respawn it spawns no worker. -/
def Turn (s : State) (w : Worker) (e : Event) (t : State) : Prop :=
  ∃ w', Inv t w' ∧ (t.shuttingDown = s.shuttingDown ∨ e = .shutdown ∧ t.shuttingDown = true) ∧
    (w.pendingRespawn = false → t.spawned = s.spawned ∧
      (t.shuttingDown = true → w'.pendingRespawn = false))

theorem Inv.turn {e : Event} {w' : Worker} (h : Inv t w') (hDown : t.shuttingDown = s.shuttingDown)
    (hSpawned : t.spawned = s.spawned) (hSame : w'.pendingRespawn = w.pendingRespawn) :
    Turn s w e t :=
  ⟨w', h, .inl hDown, fun hNo => ⟨hSpawned, fun _ => hSame.trans hNo⟩⟩

theorem inv_step {e : Event} (h : Inv s w) (hStep : step s e = some t) : Turn s w e t := by
  unfold step at hStep
  split at hStep
  · cases hStep
  rename_i hRun
  cases e with
  | exit pid =>
    dsimp only at hStep
    split at hStep <;> cases hStep
    rename_i hLive
    refine Inv.turn { h with table := fun p hp => ?_ } rfl rfl rfl
    by_cases hEq : p = pid
    · exact .inr (mem_append_right _ (by rw [hEq]; exact mem_singleton_self _))
    · refine (h.table p hp).imp (fun hMem => ?_) (mem_append_left _)
      exact (mem_erase_of_ne hEq).mpr hMem
  | tick ms =>
    cases hStep
    exact Inv.turn { h with } rfl rfl rfl
  | sigchld =>
    cases hStep
    obtain ⟨w', hInv, hSpawned, hDown, hKeep⟩ := inv_onSigchld h
    refine ⟨w', hInv, .inl hDown, fun hNo => ⟨hSpawned, fun hYes => ?_⟩⟩
    exact hKeep (hDown.symm.trans hYes) hNo
  | shutdown =>
    cases hStep
    obtain ⟨w', hInv, hSpawned, hDown, hSame⟩ := inv_onShutdownSignal h
    exact ⟨w', hInv, .inr ⟨rfl, hDown⟩, fun hNo => ⟨hSpawned, fun _ => hSame.trans hNo⟩⟩
  | handleClosed i fork =>
    dsimp only at hStep
    split at hStep <;> cases hStep
    rename_i hOn
    obtain ⟨rfl, hClosing⟩ := h.index hOn.1
    obtain ⟨w', hInv, hDown, hKeep⟩ :=
      inv_onWorkerHandleClosed h (of_decide_eq_true hClosing) fork
    exact ⟨w', hInv, .inl hDown, fun hNo => ⟨(hKeep hNo).1, fun _ => (hKeep hNo).2⟩⟩
  | heartbeat i =>
    dsimp only at hStep
    split at hStep <;> cases hStep
    rename_i hOn
    obtain ⟨rfl, -⟩ := h.index hOn
    exact Inv.turn { h with slot := h.updWorker _ } rfl rfl rfl
  | heartbeatTimeout i =>
    dsimp only at hStep
    split at hStep <;> cases hStep
    rename_i hOn
    obtain ⟨rfl, -⟩ := h.index hOn
    have hAt : s.workers[0]? = some w := by rw [h.slot]; rfl
    unfold onHeartbeatTimeout
    rw [hAt]
    dsimp only
    split
    · exact h.turn rfl rfl rfl
    split
    · rename_i pid _
      have hSlot : Inv (s.kill pid .kill) w := { h with }
      exact Inv.turn { hSlot with slot := hSlot.updWorker _ } rfl rfl rfl
    · exact Inv.turn { h with slot := h.updWorker _ } rfl rfl rfl
  | shutdownDeadline =>
    dsimp only at hStep
    split at hStep <;> cases hStep
    unfold onShutdownDeadline
    dsimp only
    split
    · exact Inv.turn { h with } rfl rfl rfl
    rw [foldl_kill]
    exact Inv.turn { h with } rfl rfl rfl

/-! ## Runs -/

theorem inv_supervisorMain {cfg : Config} {fork : Nat → Option Nat}
    (hStart : supervisorMain cfg fork = some s) : ∃ w, Inv s w ∧ w.pendingRespawn = false := by
  unfold supervisorMain at hStart
  split at hStart
  · cases hStart
  rename_i hOne
  rw [not_not.mp hOne] at hStart
  cases hFork : fork 0 with
  | none => simp [range_succ, spawnWorker, hFork] at hStart
  | some pid =>
    simp only [range_succ, range_zero, nil_append, foldlM_cons,
      foldlM_nil, spawnWorker, hFork, Option.bind_eq_bind, Option.bind_some,
      Option.pure_def, Option.some.injEq] at hStart
    subst hStart
    refine ⟨{ pid := some pid, readFd := true }, ⟨rfl, fun _ => ⟨rfl, rfl⟩, nofun, nofun, nofun, ?_⟩,
      rfl⟩
    intro p hp
    cases hp
    exact .inl (mem_singleton_self _)

/-- No signal is handled while a dead worker waits to be respawned. -/
def NoPending (s : State) (e : Event) : Prop :=
  e = .shutdown → ∀ w ∈ s.workers, w.pendingRespawn = false

instance (s : State) (e : Event) : Decidable (NoPending s e) := inferInstanceAs (Decidable (_ → _))

/-- The slot in a run under the condition: nothing is pending during a shutdown. -/
theorem inv_run {s₀ : State} {w₀ : Worker} (h₀ : Inv s₀ w₀)
    (hQuiet : s₀.shuttingDown = true → w₀.pendingRespawn = false)
    (hReach : Run.Reach step (fun s e _ => NoPending s e) s₀ s) :
    ∃ w, Inv s w ∧ (s.shuttingDown = true → w.pendingRespawn = false) := by
  refine Run.Reach.invariant
    (P := fun s => ∃ w, Inv s w ∧ (s.shuttingDown = true → w.pendingRespawn = false))
    ?_ ⟨w₀, h₀, hQuiet⟩ hReach
  rintro a e b ⟨w, hInv, hQuiet⟩ hStep hGood
  obtain ⟨w', hInv', hSame, hKeep⟩ := inv_step hInv hStep
  refine ⟨w', hInv', fun hDown => ?_⟩
  -- either the supervisor was shutting down already, or it is told to now
  have hNo : w.pendingRespawn = false := by
    rcases hSame with hSame | ⟨hEq, -⟩
    · exact hQuiet (hSame.symm.trans hDown)
    · exact hGood hEq w (by rw [hInv.slot]; exact mem_singleton_self _)
  exact (hKeep hNo).2 hDown

theorem spawned_run (h : Inv s w) (hNo : w.pendingRespawn = false)
    (hDown : s.shuttingDown = true) {good : State → Event → State → Prop}
    (hReach : Run.Reach step good s t) : t.spawned = s.spawned := by
  have hRun : ∃ w', Inv t w' ∧ w'.pendingRespawn = false ∧ t.shuttingDown = true ∧
      t.spawned = s.spawned := by
    refine Run.Reach.invariant (P := fun t => ∃ w', Inv t w' ∧ w'.pendingRespawn = false ∧
      t.shuttingDown = true ∧ t.spawned = s.spawned) ?_ ⟨w, h, hNo, hDown, rfl⟩ hReach
    rintro a e b ⟨w₁, hInv, hNo, hDown, hSpawned⟩ hStep -
    obtain ⟨w₂, hInv', hSame, hKeep⟩ := inv_step hInv hStep
    have hStill : b.shuttingDown = true := by
      rcases hSame with hSame | ⟨-, hYes⟩
      · exact hSame.trans hDown
      · exact hYes
    obtain ⟨hNone, hNext⟩ := hKeep hNo
    exact ⟨w₂, hInv', hNext hStill, hStill, hNone.trans hSpawned⟩
  obtain ⟨-, -, -, -, hSpawned⟩ := hRun
  exact hSpawned

/-- In every run of the supervisor the loop has stopped when no worker process is left,
running or waiting to be reaped, and no handle is being closed. In every run that handles no
signal while a respawn is pending, no worker is spawned once the supervisor shuts down. -/
theorem shutdown_final {cfg : Config} {fork : Nat → Option Nat} {s₀ : State}
    (hStart : supervisorMain cfg fork = some s₀) :
    (∀ s, Run.Reach step (fun s e _ => NoPending s e) s₀ s → s.shuttingDown = true →
      ∀ t, Run.Reach step (fun s e _ => NoPending s e) s t → t.spawned = s.spawned) ∧
    ∀ s, Run.Reach step (fun _ _ _ => True) s₀ s → s.live = [] → s.exited = [] →
      (∀ w ∈ s.workers, w.closingHandles = 0) → s.stopped = true := by
  obtain ⟨w₀, h₀, hNo₀⟩ := inv_supervisorMain hStart
  constructor
  · intro s hReach hDown t hRest
    obtain ⟨w, hInv, hQuiet⟩ := inv_run h₀ (fun _ => hNo₀) hReach
    exact spawned_run hInv (hQuiet hDown) hDown hRest
  · intro s hReach hLive hExited hClosed
    obtain ⟨w, hInv⟩ : ∃ w, Inv s w := by
      refine Run.Reach.invariant (P := fun s => ∃ w, Inv s w) ?_ ⟨w₀, h₀⟩ hReach
      rintro a e b ⟨w, hInv⟩ hStep -
      obtain ⟨w', hInv', -⟩ := inv_step hInv hStep
      exact ⟨w', hInv'⟩
    have hGone : w.pid = none := by
      cases hPid : w.pid with
      | none => rfl
      | some pid =>
        have hTable := hInv.table pid hPid
        rw [hLive, hExited] at hTable
        simp at hTable
    exact hInv.settled hGone (hClosed w (by rw [hInv.slot]; exact mem_singleton_self _))

def firstWorker : State :=
  { cfg := {}, workers := [{ pid := some 100, readFd := true }], live := [100], spawned := [100] }

/-- Its worker crashed and was replaced, and the supervisor has been told to stop. -/
def secondStopping : State :=
  { cfg := {}, live := [101], spawned := [100, 101], signals := [(101, .term)]
    shuttingDown := true, deadlineActive := true
    workers := [{ pid := some 101, state := .stopping, readFd := true, restartCount := 1
                  restartHead := 1 }] }

/-- A crashed worker is replaced; the new one is told to end, ends, and the loop stops. -/
theorem shutdown_final_restart : ∃ t,
    supervisorMain {} (fun _ => some 100) = some firstWorker ∧
    Run.Reach step (fun s e _ => NoPending s e) firstWorker secondStopping ∧
    Run.Reach step (fun s e _ => NoPending s e) secondStopping t ∧
    t.spawned = secondStopping.spawned ∧ t.workers.length = 1 ∧ t.stopped = true := by
  have hStart : supervisorMain {} (fun _ => some 100) = some firstWorker := by decide +kernel
  obtain ⟨s, hReach, rfl⟩ : ∃ s, Run.Reach step (fun s e _ => NoPending s e) firstWorker s ∧
      s = secondStopping :=
    Run.exists_reach [ .exit 100, .sigchld, .handleClosed 0 none, .handleClosed 0 (some 101)
      , .shutdown ] (by decide +kernel)
  obtain ⟨t, hEnd, hOne, hLive, hExited, hClosed⟩ : ∃ t,
      Run.Reach step (fun s e _ => NoPending s e) secondStopping t ∧ t.workers.length = 1 ∧
      t.live = [] ∧ t.exited = [] ∧ ∀ w ∈ t.workers, w.closingHandles = 0 :=
    Run.exists_reach [.heartbeat 0, .exit 101, .sigchld, .handleClosed 0 none,
      .handleClosed 0 none] (by decide +kernel)
  have hAll : Run.Reach step (fun _ _ _ => True) firstWorker t :=
    (hReach.trans hEnd).mono fun _ _ _ _ => trivial
  exact ⟨t, hStart, hReach, hEnd, (shutdown_final hStart).1 _ hReach rfl t hEnd, hOne
    , (shutdown_final hStart).2 t hAll hLive hExited hClosed⟩

/-- The worker dies and is reaped, SIGTERM is handled while its handles are still open, and
the last close callback starts a worker. -/
theorem respawn_after_shutdown : ∃ s₀ s t,
    supervisorMain {} (fun _ => some 100) = some s₀ ∧
    Run.runList step s₀ [.exit 100, .sigchld, .shutdown] = some s ∧ s.shuttingDown = true ∧
    Run.runList step s [.handleClosed 0 none, .handleClosed 0 (some 101)] = some t ∧
    s.spawned = [100] ∧ t.spawned = [100, 101] ∧ t.live = [101] := by
  refine ⟨_, _, _, rfl, rfl, rfl, rfl, rfl, rfl, rfl⟩

/-! ## How often a worker may be restarted

The times of the last sixteen deaths of a worker stand in a ring. After a death the supervisor
counts back from the newest until one is too old, and gives up when it counted enough. The deaths
that the ring has overwritten are only missing once sixteen are counted, and no limit is larger;
those behind the one that ended the count are too old themselves. -/

structure Sampled (deaths : List Nat) (w : Worker) : Prop where
  size : w.restartTimesMs.length = 16
  head : w.restartHead = deaths.length % 16
  count : w.restartCount = min deaths.length 16
  sample : ∀ i (hi : i < deaths.length), i < 16 →
    w.restartTimesMs.getD ((w.restartHead + 16 - 1 - i) % 16) 0 = deaths[i]

theorem sampled_recordRestart {deaths : List Nat} {w : Worker} (h : Sampled deaths w) (nowMs : Nat) :
    Sampled (nowMs :: deaths) (recordRestart w nowMs) := by
  obtain ⟨hSize, hHead, hCount, hSample⟩ := h
  have hLt : w.restartHead < 16 := by omega
  refine ⟨by simp [recordRestart, hSize], ?_, ?_, fun i hi hBack => ?_⟩
  · simp only [recordRestart, maxRestartSamples, length_cons]
    omega
  · show (if w.restartCount < 16 then w.restartCount + 1 else w.restartCount) = _
    rw [length_cons]
    split <;> omega
  · simp only [recordRestart, maxRestartSamples, getD_eq_getElem?_getD]
    cases i with
    | zero =>
      rw [show ((w.restartHead + 1) % 16 + 16 - 1 - 0) % 16 = w.restartHead by omega,
        getElem?_set_self (by omega)]
      rfl
    | succ i =>
      -- one place further back than before, so not the cell that was written
      have hPlace : ((w.restartHead + 1) % 16 + 16 - 1 - (i + 1)) % 16 =
          (w.restartHead + 16 - 1 - i) % 16 := by omega
      rw [hPlace, getElem?_set_ne (by omega), ← getD_eq_getElem?_getD, getElem_cons_succ]
      exact hSample i (by simpa using hi) (by omega)

theorem sampled_foldl (times : List Nat) : Sampled times.reverse (times.foldl recordRestart {}) := by
  induction times using List.reverseRecOn with
  | nil => exact ⟨rfl, rfl, rfl, nofun⟩
  | append_singleton times t ih =>
    rw [foldl_append, reverse_append]
    exact sampled_recordRestart ih t

/-- Where the newest come first, the elements that count are those before the number of them. -/
theorem countP_newest {p : Nat → Bool} {l : List Nat}
    (h : l.Pairwise fun a b => p b = true → p a = true) :
    ∀ i (hi : i < l.length), p l[i] = true ↔ i < l.countP p := by
  induction l with
  | nil => exact nofun
  | cons a l ih =>
    obtain ⟨hHead, hTail⟩ := pairwise_cons.mp h
    intro i hi
    by_cases ha : p a = true
    · cases i with
      | zero => simp [ha]
      | succ i =>
        rw [getElem_cons_succ, ih hTail i (by simpa using hi), countP_cons_of_pos ha]
        omega
    -- nothing behind an element that does not count counts
    have hNone : ∀ b ∈ a :: l, ¬ p b = true := by
      intro b hb hp
      rcases mem_cons.mp hb with rfl | hb
      · exact ha hp
      · exact ha (hHead b hb hp)
    rw [countP_eq_zero.mpr hNone]
    simpa using hNone _ (getElem_mem hi)

variable {deaths : List Nat} {nowMs : Nat}

theorem countInWindow_eq (h : Sampled deaths w) (hPast : ∀ t ∈ deaths, t ≤ nowMs)
    (hOrder : deaths.Pairwise (· ≥ ·)) (windowMs k i : Nat) (hEnd : i + k ≤ min deaths.length 16) :
    countInWindow w windowMs nowMs k i =
      min k (deaths.countP (fun t => nowMs - t ≤ windowMs) - i) := by
  induction k generalizing i with
  | zero => simp [countInWindow]
  | succ k ih =>
    have hi : i < deaths.length := by omega
    have hIn := countP_newest (p := fun t => decide (nowMs - t ≤ windowMs))
      (hOrder.imp fun hLe => by simp only [decide_eq_true_eq]; omega) i hi
    rw [decide_eq_true_eq] at hIn
    have hSub : sub64 nowMs deaths[i] = nowMs - deaths[i] :=
      if_pos (hPast _ (getElem_mem hi))
    simp only [countInWindow, show maxRestartSamples = 16 from rfl, h.sample i hi (by omega), hSub]
    split
    · omega
    · rw [ih (i + 1) (by omega)]
      omega

/-- **The limiter counts all deaths**: after deaths at non-decreasing times, the last of them now,
the limit is exceeded exactly when at least `maxRestarts` of all of them lie in the window. -/
theorem restart_rate_iff (before : List Nat) (nowMs windowMs maxRestarts : Nat)
    (hOrder : (before ++ [nowMs]).Pairwise (· ≤ ·)) (hMax : 1 ≤ maxRestarts ∧ maxRestarts ≤ 16) :
    restartRateExceeded ((before ++ [nowMs]).foldl recordRestart {}) windowMs maxRestarts nowMs =
        true ↔
      maxRestarts ≤ (before ++ [nowMs]).countP fun t => nowMs - t ≤ windowMs := by
  have hRing := sampled_foldl (before ++ [nowMs])
  have hPast : ∀ t ∈ (before ++ [nowMs]).reverse, t ≤ nowMs := by
    intro t ht
    rcases mem_append.mp (mem_reverse.mp ht) with hOld | hNow
    · exact (pairwise_append.mp hOrder).2.2 t hOld nowMs mem_cons_self
    · exact (mem_singleton.mp hNow).le
  have hCount := countInWindow_eq hRing hPast (pairwise_reverse.mpr hOrder) windowMs
    (min (before ++ [nowMs]).length 16) 0 (by simp)
  have hAll := countP_le_length (p := fun t => decide (nowMs - t ≤ windowMs))
    (l := before ++ [nowMs])
  rw [countP_reverse] at hCount
  simp only [restartRateExceeded, decide_eq_true_eq, hRing.count, length_reverse, hCount]
  omega

/-- Twenty deaths, so that the ring has wrapped; the last sixteen lie in the window. -/
theorem restart_rate_wrapped :
    restartRateExceeded ((range 20).foldl recordRestart {}) 15 16 19 = true := by
  have hIff := restart_rate_iff (range 19) 19 15 16 (by decide) (by decide)
  exact hIff.mpr (by decide)

end BeaverMQ.Supervision
