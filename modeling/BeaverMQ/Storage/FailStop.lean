import BeaverMQ.Consensus.Moves

/-!
# BeaverMQ — what a node with failed storage still does

`storage_write_failed` raises `storage_failed` and makes a leader step down. The flag is
looked at again before a positive answer to an APPEND and nowhere else: elections go on, and
a vote is answered whether or not `persist_meta` wrote it.
-/

namespace BeaverMQ

open List

/-! ## Fail-stop -/

/-- Every granted vote among the effects is on the disk when it goes out. -/
def VotesRecorded (d : Disk) (out : List Effect) : Prop :=
  ∀ k p t, out[k]? = some (.send p (.voteResp t true)) →
    (d.applyAll (out.take k)).votedFor = some p ∧ u32 (d.applyAll (out.take k)).term = t

def NoConfirm (out : List Effect) : Prop :=
  ∀ p t hint durable, Effect.send p (.appendResp t true hint durable) ∉ out

/-- A node at the end of a callback that started on the disk `d`: with failed storage it does
not lead and confirms nothing, and the votes it sent are recorded. -/
structure FailStop (d : Disk) (n : Node) : Prop where
  role : n.storageFailed = true → n.role ≠ .leader
  votes : VotesRecorded d n.out
  confirm : n.storageFailed = true → NoConfirm n.out

variable {d : Disk} {n : Node} {p : Nat} {c c' : Cluster}

theorem VotesRecorded.append {out : List Effect} {e : Effect} (hOut : VotesRecorded d out)
    (hNew : ∀ p t, e = .send p (.voteResp t true) →
      (d.applyAll out).votedFor = some p ∧ u32 (d.applyAll out).term = t) :
    VotesRecorded d (out ++ [e]) := by
  intro k p t hk
  by_cases hLt : k < out.length
  · rw [getElem?_append_left hLt] at hk
    rw [take_append_of_le_length (Nat.le_of_lt hLt)]
    exact hOut k p t hk
  have hEq : k = out.length := by
    have hLen := (List.getElem?_eq_some_iff.mp hk).1
    simp only [length_append, length_cons, length_nil] at hLen
    omega
  subst hEq
  rw [take_left]
  refine hNew p t ?_
  simpa using hk

/-- The moves of a node that keeps to fail-stop: it becomes leader with working storage and
votes on record only. -/
def failGate (d : Disk) : Gate where
  lead := fun n => n.storageFailed = false
  grant := fun n p => (d.applyAll n.out).votedFor = some p ∧ u32 (d.applyAll n.out).term = n.wireTerm
  ack := False

/-- What is kept while a callback runs whose storage may fail. -/
structure Guarded (d : Disk) (n : Node) : Prop where
  role : n.storageFailed = true → n.role ≠ .leader
  votes : VotesRecorded d n.out
  confirm : NoConfirm n.out

theorem Guarded.emit (hn : Guarded d n) (e : Effect) (hVote : ∀ p t, e ≠ .send p (.voteResp t true))
    (hAck : ∀ p t hint durable, e ≠ .send p (.appendResp t true hint durable)) :
    Guarded d (n.emit e) := by
  refine ⟨hn.role, hn.votes.append fun p t hEq => absurd hEq (hVote p t), ?_⟩
  intro p t hint durable hMem
  rcases mem_append.mp hMem with hMem | hMem
  · exact hn.confirm p t hint durable hMem
  · exact hAck p t hint durable (mem_singleton.mp hMem).symm

theorem guarded_fail (hn : Guarded d n) : Guarded d (storageWriteFailed n) := by
  rw [storageWriteFailed_eq]
  refine ⟨fun _ => ?_, hn.votes, hn.confirm⟩
  show n.role.demote ≠ .leader
  cases n.role <;> simp [Role.demote]

/-- Each move keeps the guard: no leader after a failure, and no vote that is not recorded. -/
theorem guarded_move {n' : Node} (hn : Guarded d n)
    (hMove : Move (failGate d) n n') : Guarded d n' := by
  cases hMove with
  | quiet hKept =>
    have hRole : n'.role = n.role := congrArg Tracked.role hKept
    have hFailed : n'.storageFailed = n.storageFailed := congrArg Tracked.failed hKept
    have hOut : n'.out = n.out := congrArg Tracked.out hKept
    refine ⟨?_, ?_, ?_⟩
    · rw [hRole, hFailed]
      exact hn.role
    · rw [hOut]
      exact hn.votes
    · rw [hOut]
      exact hn.confirm
  | emit e hPlain =>
    refine hn.emit e ?_ ?_
    · rintro p t rfl
      cases hPlain
    · rintro p t hint durable rfl
      cases hPlain
  | fail => exact guarded_fail hn
  | adopt | campaign | follow => exact ⟨fun _ => by simp, hn.votes, hn.confirm⟩
  | lead hGate =>
    -- the gate of an election: the storage works
    have hFine : n.storageFailed = false := hGate
    exact ⟨fun hFailed => by simp [hFine] at hFailed, hn.votes, hn.confirm⟩
  | grant p hGate =>
    refine ⟨hn.role, hn.votes.append ?_, ?_⟩
    · rintro q t hEq
      cases hEq
      exact hGate
    · intro q t hint durable hMem
      rcases mem_append.mp hMem with hMem | hMem
      · exact hn.confirm q t hint durable hMem
      · cases mem_singleton.mp hMem
  | ack p hint hOk hGate => exact absurd hGate id
  | sendAppend p ni cong hPos => exact hn.emit _ (by simp) (by simp)
  | _ => exact ⟨hn.role, hn.votes, hn.confirm⟩

theorem guarded_moves {n' : Node} (hn : Guarded d n)
    (hMoves : Moves (failGate d) n n') : Guarded d n' := by
  induction hMoves with
  | refl => exact hn
  | next _ hMove ih => exact guarded_move ih hMove

/-! ## Safe inputs -/

/-- What a frame from peer `p` must find: a vote that elects the node finds working storage,
and a vote the node grants can be recorded or is on record. -/
def FrameSafe (d : Disk) (n : Node) (p : Nat) : Frame → Prop
  | .prevoteResp t g =>
    Prevails n t g → n.cfg.quorum ≤ 1 → n.storageFailed = false ∧ n.io.metaOk = true
  | .voteReq t li lt =>
    Grants n p t li lt → n.io.metaOk = true ∨ d.votedFor = some p ∧ u32 d.term = u32 t
  | .voteResp t g => Elects n t g → n.storageFailed = false
  | _ => True

/-- What a callback must find. A timeout matters to a node that is a quorum by itself. -/
def InputSafe (c : Cluster) (i : Nat) : Input → Prop
  | .own .electionTimeout =>
    (c.node i).role ≠ .leader → (c.node i).cfg.quorum ≤ 1 →
      (c.node i).storageFailed = false ∧ (c.node i).io.metaOk = true
  | .own _ => True
  | .frame src =>
    match c.chan src i with
    | [] => True
    | f :: _ =>
      ((c.node i).peer src).linkState = .up → FrameSafe (c.disk i) (c.node i) src f
  | .accept _ => True

def EventSafe (c : Cluster) : Event → Prop
  | .step i inp | .crashIn i inp _ _ => InputSafe c i inp
  | .crash _ _ | .wipe _ => True

instance (n : Node) (t : Nat) (g : Bool) : Decidable (Prevails n t g) :=
  inferInstanceAs (Decidable (_ ∧ _))

instance (n : Node) (p t li lt : Nat) : Decidable (Grants n p t li lt) :=
  inferInstanceAs (Decidable (_ ∧ _))

instance (n : Node) (t : Nat) (g : Bool) : Decidable (Elects n t g) :=
  inferInstanceAs (Decidable (_ ∧ _))

instance (d : Disk) (n : Node) (p : Nat) : (f : Frame) → Decidable (FrameSafe d n p f)
  | .prevoteResp _ _ | .voteReq _ _ _ | .voteResp _ _ => inferInstanceAs (Decidable (_ → _))
  | .hello _ | .helloAck _ | .prevote _ _ _ | .append _ _ _ _ _ _ _ | .appendResp _ _ _ _
  | .forward _ _ | .forwardAck _ _ _ | .snapBegin _ _ _ _ | .snapChunk _ _ | .snapEnd _
  | .snapAck _ _ _ | .status _ => inferInstanceAs (Decidable True)

instance (c : Cluster) (i : Nat) : (inp : Input) → Decidable (InputSafe c i inp)
  | .own cb => decidable_of_iff (cb = .electionTimeout → (c.node i).role ≠ .leader →
      (c.node i).cfg.quorum ≤ 1 → (c.node i).storageFailed = false ∧ (c.node i).io.metaOk = true)
      (by cases cb <;> simp [InputSafe])
  | .frame src => decidable_of_iff (∀ f ∈ (c.chan src i).head?,
      ((c.node i).peer src).linkState = .up → FrameSafe (c.disk i) (c.node i) src f)
      (by cases hChan : c.chan src i <;> simp [InputSafe, hChan])
  | .accept _ => inferInstanceAs (Decidable True)

instance (c : Cluster) : (e : Event) → Decidable (EventSafe c e)
  | .step i inp | .crashIn i inp _ _ => inferInstanceAs (Decidable (InputSafe c i inp))
  | .crash _ _ | .wipe _ => inferInstanceAs (Decidable True)

/-! ## A callback with a safe input -/

theorem campaigning_failed (n : Node) :
    (campaigning n).storageFailed = (n.storageFailed || !n.io.metaOk) := by
  unfold campaigning persistMeta
  dsimp only
  split
  · rename_i hIo
    simp [Node.emit, hIo]
  rename_i hIo
  rw [storageWriteFailed_eq]
  simp [hIo]

theorem campaignOk_of {m : Node} (hKept : m.tracked = n.tracked)
    (hSafe : n.cfg.quorum ≤ 1 → n.storageFailed = false ∧ n.io.metaOk = true) :
    CampaignOk (failGate d) m := by
  intro hQuorum
  obtain ⟨hCfg, hVotes⟩ := campaigning_fields m
  have hCfg' : m.cfg = n.cfg := congrArg Tracked.cfg hKept
  rw [hCfg, hCfg', hVotes] at hQuorum
  obtain ⟨hFine, hMeta⟩ := hSafe hQuorum
  refine ⟨?_, trivial⟩
  show (campaigning m).storageFailed = false
  rw [campaigning_failed, show m.storageFailed = n.storageFailed from congrArg Tracked.failed hKept,
    show m.io = n.io from congrArg Tracked.io hKept, hFine, hMeta]
  rfl

theorem voted_recorded {t li lt : Nat} (hOut : n.out = []) (hGrant : Grants n p t li lt)
    (hSafe : n.io.metaOk = true ∨ d.votedFor = some p ∧ u32 d.term = u32 t) :
    (failGate d).grant (voted n p t) p := by
  have hIo := (observeTerm_fields n t).io
  obtain ⟨hTerm, -, -⟩ := hGrant
  show (d.applyAll (voted n p t).out).votedFor = some p ∧
    u32 (d.applyAll (voted n p t).out).term = u32 (voted n p t).term
  by_cases hMeta : n.io.metaOk = true
  · unfold voted persistMeta
    rw [if_pos (by rw [hIo]; exact hMeta)]
    simp [Node.emit, Disk.applyAll, Disk.apply]
  -- nothing was written: the answer rests on what the disk held before
  obtain ⟨hVote, hRec⟩ := hSafe.resolve_left hMeta
  have hSeen : (observeTerm n t).1.out = [] := by
    unfold observeTerm persistMeta
    rw [if_neg hMeta, storageWriteFailed_eq]
    split <;> exact hOut
  have hEq : (voted n p t).out = [] ∧ (voted n p t).term = t := by
    unfold voted persistMeta
    rw [if_neg (by rw [hIo]; exact hMeta), storageWriteFailed_eq]
    exact ⟨hSeen, hTerm.symm⟩
  rw [hEq.1, hEq.2]
  exact ⟨hVote, hRec⟩

theorem Guarded.failStop (hn : Guarded d n) : FailStop d n :=
  ⟨hn.role, hn.votes, fun _ => hn.confirm⟩

theorem failStop_clDispatch {f : Frame} (hn : Guarded d n)
    (hOut : n.out = []) (hSafe : FrameSafe d n p f) : FailStop d (clDispatch n p f) := by
  have hMoves : FrameGate (failGate d) n p f → FailStop d (clDispatch n p f) := fun hGate =>
    (guarded_moves hn (moves_clDispatch p f hGate)).failStop
  cases f with
  | append t prev pt lc ci cong es =>
    -- the only handler that confirms: on a node whose storage still works
    rcases answered_onAppend (Q := (failGate d).free.open) p t prev pt lc ci cong es
      (fun _ => trivial) with hAll | ⟨m, hint, hUpTo, hOk, hEq⟩
    · exact (guarded_moves hn hAll.turns.moves).failStop
    · have hm := guarded_moves hn hUpTo.turns.moves
      show FailStop d (onAppend n p t prev pt lc ci cong es)
      rw [hEq]
      refine ⟨hm.role, hm.votes.append ?_, fun hFailed => ?_⟩
      · intro q u hVote
        cases hVote
      · have hFine : m.storageFailed = true := hFailed
        rw [hOk] at hFine
        cases hFine
  | prevoteResp t g => exact hMoves fun hWin m hKept => campaignOk_of hKept (hSafe hWin)
  | voteReq t li lt => exact hMoves fun hGrant => voted_recorded hOut hGrant (hSafe hGrant)
  | voteResp t g => exact hMoves fun hElects => ⟨hSafe hElects, trivial⟩
  | forward t ops => exact hMoves fun _ => ⟨trivial, fun _ _ => trivial⟩
  | snapBegin t base bt topo => exact hMoves fun _ => trivial
  | _ => exact hMoves trivial

theorem failStop_callback (cb : Callback) (hn : Guarded d n)
    (hSafe : cb = .electionTimeout → n.role ≠ .leader → n.cfg.quorum ≤ 1 →
      n.storageFailed = false ∧ n.io.metaOk = true) : FailStop d (cb.run n) := by
  refine (guarded_moves hn (moves_callback cb ?_)).failStop
  cases cb with
  | electionTimeout => exact fun hRole m hKept => campaignOk_of hKept (hSafe rfl hRole)
  | drain => exact fun _ => ⟨trivial, fun _ _ => trivial⟩
  | _ => trivial

def Node.Idle (n : Node) : Prop := n.out = [] ∧ (n.storageFailed = true → n.role ≠ .leader)

theorem Node.Idle.guarded (hn : n.Idle) (d : Disk) : Guarded d n := by
  refine ⟨hn.2, ?_, ?_⟩
  · intro k p t hk
    rw [hn.1] at hk
    cases hk
  · intro p t hint durable hMem
    rw [hn.1] at hMem
    cases hMem

theorem failStop_begin {i : Nat} {inp : Input}
    (hIdle : (c.node i).Idle) (hBegin : c.begin i inp = some (c', n))
    (hSafe : InputSafe c i inp) : FailStop (c.disk i) n := by
  have hGuarded := hIdle.guarded (c.disk i)
  cases begins hBegin with
  | own =>
    refine failStop_callback _ hGuarded ?_
    rintro rfl hRole hQuorum
    exact hSafe hRole hQuorum
  | lost => exact hGuarded.failStop
  | dropped => exact ⟨hGuarded.role, hGuarded.votes, fun _ => hGuarded.confirm⟩
  | @dispatched inp src f _ _ _ _ _ hTaken =>
    refine failStop_clDispatch hGuarded hIdle.1 ?_
    cases hTaken with
    | shake hShake => cases f <;> trivial
    | next hChan hUp =>
      simp only [InputSafe, hChan] at hSafe
      exact hSafe hUp

/-! ## An unsafe input breaks it -/

theorem becomeLeader_fields (n : Node) :
    (becomeLeader n).role = .leader ∧ (becomeLeader n).storageFailed = n.storageFailed := by
  unfold becomeLeader
  extract_lets next m m₁ m₂
  obtain ⟨peer, out, hEq⟩ := pumped_sends.replicateToPeers m₁
  have hm₂ : m₂.role = .leader ∧ m₂.storageFailed = n.storageFailed := by
    simp only [m₂, hEq]
    exact ⟨rfl, rfl⟩
  split <;> exact hm₂

theorem FailStop.fine_of_leader (h : FailStop d (becomeLeader n)) : n.storageFailed = false := by
  obtain ⟨hRole, hFailed⟩ := becomeLeader_fields n
  refine eq_false_of_ne_true fun hBad => ?_
  exact h.role (hFailed.trans hBad) hRole

theorem fine_of_campaign (hQuorum : n.cfg.quorum ≤ 1)
    (h : FailStop d (becomeCandidate n)) : n.storageFailed = false ∧ n.io.metaOk = true := by
  obtain ⟨hCfg, hVotes⟩ := campaigning_fields n
  have hEq : becomeCandidate n = becomeLeader (campaigning n) := by
    unfold becomeCandidate
    rw [if_pos (by show (campaigning n).cfg.quorum ≤ (campaigning n).votesGranted
                   rw [hCfg, hVotes]; exact hQuorum)]
    rfl
  rw [hEq] at h
  have hFine := h.fine_of_leader
  rw [campaigning_failed] at hFine
  simpa using hFine

theorem frameSafe_of_failStop {f : Frame} (hOut : n.out = [])
    (h : FailStop d (clDispatch n p f)) : FrameSafe d n p f := by
  cases f with
  | prevoteResp t g =>
    rintro ⟨hTerm, hPre, rfl, hCount⟩ hQuorum
    have hEq : clDispatch n p (.prevoteResp t true) =
        becomeCandidate { n with prevotesGranted := n.prevotesGranted + 1 } := by
      simp [clDispatch, onPrevoteResp, observeTerm, hTerm, hPre, hCount]
    rw [hEq] at h
    exact fine_of_campaign (n := { n with prevotesGranted := n.prevotesGranted + 1 }) hQuorum h
  | voteResp t g =>
    rintro ⟨hRole, rfl, rfl, hCount⟩
    have hEq : clDispatch n p (.voteResp n.term true) = becomeLeader (counted n) := by
      simp [clDispatch, onVoteResp, observeTerm, hRole, hCount, counted]
    rw [hEq] at h
    exact h.fine_of_leader
  | voteReq t li lt =>
    intro hGrant
    by_cases hMeta : n.io.metaOk = true
    · exact .inl hMeta
    -- without a vote file the answer is the only effect
    have hIo := (observeTerm_fields n t).io
    have hSeen : (observeTerm n t).1.out = [] := by
      unfold observeTerm persistMeta
      rw [if_neg hMeta, storageWriteFailed_eq]
      split <;> exact hOut
    have hSent : (clDispatch n p (.voteReq t li lt)).out = [.send p (.voteResp (u32 t) true)] := by
      show (onVoteReq n p t li lt).out = _
      unfold onVoteReq
      dsimp only
      rw [if_pos (show _ ∧ _ ∧ _ from hGrant)]
      unfold persistMeta
      rw [if_neg (by rw [hIo]; exact hMeta), storageWriteFailed_eq]
      simp only [clSend, Node.emit, Node.wireTerm, hSeen, ← hGrant.1, nil_append]
    have hVotes := h.votes
    rw [hSent] at hVotes
    exact .inr (hVotes 0 p (u32 t) rfl)
  | _ => trivial

theorem failStop_callback_iff {i : Nat} {inp : Input}
    (hIdle : (c.node i).Idle) (hBegin : c.begin i inp = some (c', n)) :
    FailStop (c.disk i) n ↔ InputSafe c i inp := by
  refine ⟨fun h => ?_, failStop_begin hIdle hBegin⟩
  cases inp with
  | own cb =>
    simp only [Cluster.begin] at hBegin
    split at hBegin <;> cases hBegin
    cases cb with
    | electionTimeout =>
      intro hRole hQuorum
      let m : Node :=
        { c.node i with inPrevote := true, prevotesGranted := 1, leaderId := none }
      have hEq : electionTimerCb (c.node i) = becomeCandidate m := by
        simp [electionTimerCb, hRole, startPrevote, hQuorum, m]
      have hTimer : FailStop (c.disk i) (electionTimerCb (c.node i)) := h
      rw [hEq] at hTimer
      exact fine_of_campaign (n := m) hQuorum hTimer
    | _ => trivial
  | frame src =>
    cases hChan : c.chan src i with
    | nil => simp [InputSafe, hChan]
    | cons f rest =>
      simp only [InputSafe, hChan]
      intro hUp
      unfold Cluster.begin at hBegin
      simp only [hChan, Option.some.injEq] at hBegin
      -- frames that could be unsafe are short, so they are dispatched
      cases f with
      | prevoteResp | voteReq | voteResp =>
        simp [Cluster.receive, hUp, Frame.length, clusterMaxPayload] at hBegin
        exact frameSafe_of_failStop hIdle.1 (by rw [hBegin.2]; exact h)
      | _ => trivial
  | accept src => trivial

/-! ## Runs -/

theorem boot_fields (s : Setup) (i : Nat) (d : Disk) :
    (s.boot i d).storageFailed = false ∧ (s.boot i d).role = .follower := by
  unfold Setup.boot persistLoad
  cases d.snap <;> exact ⟨rfl, rfl⟩

theorem idle_step {s : Setup} {e : Event} (hIdle : ∀ i, (c.node i).Idle)
    (hStep : c.step s e = some c') (hSafe : EventSafe c e) (i : Nat) : (c'.node i).Idle := by
  have hNode := nodeStep_of_step hStep i
  generalize c'.node i = n, c'.disk i = d at hNode
  cases hNode with
  | same => exact hIdle i
  | callback hBegin => exact ⟨rfl, (failStop_begin (hIdle i) hBegin hSafe).role⟩
  | restart d =>
    refine ⟨rfl, fun hFailed => ?_⟩
    have hFine := (boot_fields s i d).1
    rw [show (s.boot i d).storageFailed = true from hFailed] at hFine
    cases hFine

/-- In every run of safe inputs no node with failed storage leads; and from every state of
such a run each callback, whether it completes or is cut short by a crash, keeps to fail-stop
exactly when its input is safe: at its end a node with failed storage does not lead and has
confirmed no APPEND, and every vote was on the disk when it was sent. -/
theorem failStop_run {s : Setup} {c : Cluster}
    (hReach : Run.Reach (Cluster.step s) (fun c e _ => EventSafe c e) s.init c) :
    (∀ i, (c.node i).storageFailed = true → (c.node i).role ≠ .leader) ∧
      ∀ i inp c' n, c.begin i inp = some (c', n) →
        (FailStop (c.disk i) n ↔ InputSafe c i inp) := by
  have hIdle : ∀ i, (c.node i).Idle := by
    refine Run.Reach.invariant (P := fun c => ∀ i, (c.node i).Idle) ?_ ?_ hReach
    · exact fun _ _ _ hIdle hStep hSafe => idle_step hIdle hStep hSafe
    · refine fun i => ⟨rfl, fun hFailed => ?_⟩
      have hFine := (boot_fields s i {}).1
      rw [show (s.boot i {}).storageFailed = true from hFailed] at hFine
      cases hFine
  exact ⟨fun i => (hIdle i).2, fun i inp c' n hBegin => failStop_callback_iff (hIdle i) hBegin⟩

def failSetup : Setup := { nnodes := 3 }

/-- A leader whose log file cannot be written any more steps down, and the rest of the run is
safe. -/
theorem failStop_run_stepDown : ∃ c, Run.Reach (Cluster.step failSetup)
      (fun c e _ => EventSafe c e) failSetup.init c ∧ (c.node 0).storageFailed = true ∧
      ((∀ i, (c.node i).storageFailed = true → (c.node i).role ≠ .leader) ∧
        ∀ i inp c' n, c.begin i inp = some (c', n) →
          (FailStop (c.disk i) n ↔ InputSafe c i inp)) := by
  obtain ⟨c, hReach, hEnd⟩ : ∃ c, Run.Reach (Cluster.step failSetup)
      (fun c e _ => EventSafe c e) failSetup.init c ∧ (c.node 0).storageFailed = true :=
    Run.exists_reach (Event.link 0 1 ++ Event.elect 0 1 ++
      [ .own 0 (.setIo { writeOk := false }), .own 0 (.propose 1 [7]), .own 0 .drain
      , .own 0 .heartbeat, .own 0 .fsyncTimer ]) (by decide +kernel)
  exact ⟨c, hReach, hEnd, failStop_run hReach⟩

/-- The vote files of nodes 0 and 1 cannot be written. Node 1 answers the vote request of
node 0 all the same, with nothing on its disk, and node 0, which could not record its own
campaign either, becomes leader. -/
theorem failStop_broken : ∃ c₁ c₂,
      Run.runList (Cluster.step failSetup) failSetup.init (Event.link 0 1 ++
        [ .own 0 (.setIo { metaOk := false }), .own 1 (.setIo { metaOk := false }) ] ++
        (Event.elect 0 1).dropLast) = some c₁ ∧
      (c₁.node 1).storageFailed = true ∧ c₁.chan 1 0 = [.voteResp 1 true] ∧
      (c₁.disk 1).votedFor = none ∧ c₁.step failSetup (.deliver 1 0) = some c₂ ∧
      (c₂.node 0).storageFailed = true ∧ (c₂.node 0).role = .leader := by
  refine ⟨_, _, rfl, ?_, ?_, ?_, rfl, ?_, ?_⟩ <;> decide +kernel

end BeaverMQ
