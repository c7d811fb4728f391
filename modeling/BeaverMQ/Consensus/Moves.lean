import BeaverMQ.Consensus.Handlers

/-!
# BeaverMQ — what a callback does to a node, one move at a time

The moves describe a node with every storage call free to fail, and keep what elections, the log
and the leader's pending acknowledgements need: `Tracked`. A `Gate` says what has to hold where a
move is one that some property depends on.

A `Turn` is a move that leaves term, commit index, applied index and the node's part in a PreVote
alone, or a change of one of them. A `Stage` is a turn that leaves votes and the log file alone, a
storage call, or a change of term, vote or role. Every callback is a sequence of stages.
-/

namespace BeaverMQ

open List

structure Tracked where
  cfg : Config
  io : Io
  term : Nat
  votedFor : Option Nat
  role : Role
  failed : Bool
  dirty : Bool
  log : Log
  acks : List FwdAck
  history : List (Nat × Entry)
  out : List Effect

def Node.tracked (n : Node) : Tracked where
  cfg := n.cfg
  io := n.io
  term := n.term
  votedFor := n.votedFor
  role := n.role
  failed := n.storageFailed
  dirty := n.logDirty
  log := n.log
  acks := n.fwd.ackPending
  history := n.history
  out := n.out

/-- Effects with a move of their own: a granted vote, a positive answer to an APPEND, and
an APPEND. -/
def Effect.named : Effect → Bool
  | .send _ (.voteResp _ true) => true
  | .send _ (.appendResp _ true _ _) => true
  | .send _ (.append _ _ _ _ _ _ _) => true
  | _ => false

structure Gate where
  /-- `become_leader`. -/
  lead : Node → Prop := fun _ => True
  /-- A granted vote for the peer goes out. -/
  grant : Node → Nat → Prop := fun _ _ => True
  /-- A positive answer to an APPEND goes out. -/
  ack : Prop := True
  /-- A leader appends an entry of its own. -/
  append : Entry → Prop := fun _ => True
  /-- An acknowledgement is queued for an appended entry. -/
  push : Prop := True
  /-- An accepted APPEND replaces what is behind its `prevIndex`. -/
  splice : Log → List FwdAck → Nat → List Entry → Prop := fun _ _ _ _ => True
  /-- A snapshot boundary is installed. -/
  install : Log → List FwdAck → Nat → Prop := fun _ _ _ => True

inductive Move (G : Gate) (n : Node) : Node → Prop
  | quiet {n' : Node} (hKept : n'.tracked = n.tracked) : Move G n n'
  | emit (e : Effect) (hPlain : e.named = false) : Move G n (n.emit e)
  | setIo (io : Io) : Move G n { n with io }
  | fail : Move G n (storageWriteFailed n)
  /-- `observe_term` on a higher term. -/
  | adopt (t : Nat) (hNew : n.term < t) :
      Move G n { n with term := t, votedFor := none, role := .follower }
  /-- `become_candidate`. -/
  | campaign :
      Move G n { n with term := n.term + 1, votedFor := some n.cfg.selfId, role := .candidate }
  | vote (p : Nat) (hFree : n.votedFor = none ∨ n.votedFor = some p) :
      Move G n { n with votedFor := some p }
  | follow : Move G n { n with role := .follower }
  | lead (hGate : G.lead n) : Move G n { n with role := .leader }
  | grant (p : Nat) (hGate : G.grant n p) : Move G n (clSend n p (.voteResp n.wireTerm true))
  /-- The positive answer to an APPEND. -/
  | ack (p hint : Nat) (hOk : n.storageFailed = false) (hGate : G.ack) :
      Move G n (sendAppendResp n p true hint)
  | sendAppend (p ni : Nat) (cong : Bool) (hPos : 1 ≤ ni) :
      Move G n (clSend n p (.append n.wireTerm (ni - 1) (logTermAt n.log (ni - 1))
        n.log.commitIndex (allDurableIndex n) cong
        (if ni ≤ n.log.compactedTo then []
         else takeBatch (entriesFrom n.log ni) 0 clAppendFixed)))
  /-- `leader_append`, and the no-op of `become_leader`. -/
  | append (e : Entry) (hRole : n.role = .leader) (hTerm : e.term = n.term)
      (hGate : G.append e) :
      Move G n { n with log := { n.log with entries := n.log.entries ++ [e] } }
  /-- Appends of a leader wait for `leader_flush`, or no longer do. -/
  | flag (dirty : Bool) (hRole : dirty = true → n.role = .leader) :
      Move G n { n with logDirty := dirty }
  /-- `push_fwd_ack_pending`, for the entry just appended. -/
  | push (a : FwdAck) (hGate : G.push) :
      Move G n { n with fwd := { n.fwd with ackPending := n.fwd.ackPending ++ [a] } }
  /-- The pop loop of `resolve_fwd_acks`. -/
  | pop (f : Forwarding) (k : Nat) (hAcks : f.ackPending = n.fwd.ackPending.drop k)
      (hApplied : ∀ a ∈ n.fwd.ackPending.take k, a.logIndex ≤ n.log.appliedIndex) :
      Move G n { n with fwd := f }
  /-- The log surgery of an accepted APPEND. -/
  | splice (prev : Nat) (es : List Entry)
      (hGate : G.splice n.log n.fwd.ackPending prev es) :
      Move G n { n with log := spliceLog n.log prev es }
  /-- `CL_FRAME_SNAP_BEGIN`, installed. -/
  | install (base bt : Nat) (hGate : G.install n.log n.fwd.ackPending base) :
      Move G n { n with log := installLog base bt }
  /-- `log_compact_to`. -/
  | rebase (upto : Nat) (hNew : n.log.baseIndex < upto) (hApplied : upto ≤ n.log.appliedIndex) :
      Move G n { n with log := rebaseLog n.log upto }
  | sync : Move G n { n with log := { n.log with durableIndex := n.log.lastIndex } }
  | commit (k : Nat) (hNew : n.log.commitIndex < k) :
      Move G n { n with log := { n.log with commitIndex := k } }
  /-- One turn of the loop of `apply_committed`. -/
  | apply (hNew : n.log.appliedIndex < n.log.commitIndex) :
      Move G n { n with
        log := { n.log with appliedIndex := n.log.appliedIndex + 1 }
        history := n.history ++ ((logAt n.log (n.log.appliedIndex + 1)).map
          fun e => (n.log.appliedIndex + 1, e)).toList }
  /-- `compact_payloads`. -/
  | free (upto : Nat) :
      Move G n { n with log := { n.log with
        compactedTo := max n.log.compactedTo (min upto n.log.commitIndex) } }

inductive Moves (G : Gate) (n : Node) : Node → Prop
  | refl : Moves G n n
  | next {n₁ n₂ : Node} (hMoves : Moves G n n₁) (hMove : Move G n₁ n₂) : Moves G n n₂

variable {G : Gate} {n n₁ n₂ : Node}

theorem Moves.trans (h₁ : Moves G n n₁) (h₂ : Moves G n₁ n₂) : Moves G n n₂ := by
  induction h₂ with
  | refl => exact h₁
  | next _ hMove ih => exact .next ih hMove

theorem Moves.one (hMove : Move G n n₁) : Moves G n n₁ := .next .refl hMove

theorem Moves.quiet (hKept : n₁.tracked = n.tracked) : Moves G n n₁ := .one (.quiet hKept)

theorem Moves.then (hMove : Move G n n₁) (hKept : n₂.tracked = n₁.tracked) : Moves G n n₂ :=
  (Moves.one hMove).next (.quiet hKept)

/-! ## Turns -/

structure Poll where
  inPrevote : Bool
  prevotesGranted : Nat
  sent : List Effect

def isPoll : Effect → Bool
  | .send _ (.prevote _ _ _) => true
  | .send _ (.prevoteResp _ _) => true
  | _ => false

def Node.poll (n : Node) : Poll := ⟨n.inPrevote, n.prevotesGranted, n.out.filter isPoll⟩

structure Desk where
  term : Nat
  commit : Nat
  applied : Nat
  poll : Poll

def Node.desk (n : Node) : Desk := ⟨n.term, n.log.commitIndex, n.log.appliedIndex, n.poll⟩

structure TurnGate extends Gate where
  /-- `become_candidate`. -/
  campaign : Prop := True
  /-- A PreVote is asked for, answered or counted. -/
  poll : Prop := True
  /-- A leader counts a quorum in this term. -/
  office : Nat → Prop := fun _ => True

abbrev Gate.free (G : Gate) : TurnGate := { toGate := G }

inductive Turn (G : TurnGate) (n : Node) : Node → Prop
  | move {n' : Node} (hMove : Move G.toGate n n') (hDesk : n'.desk = n.desk) : Turn G n n'
  | adopt (t : Nat) (hNew : n.term < t) :
      Turn G n { n with term := t, votedFor := none, role := .follower }
  | campaign (hGate : G.campaign) :
      Turn G n { n with term := n.term + 1, votedFor := some n.cfg.selfId, role := .candidate }
  | endRound : Turn G n { n with inPrevote := false }
  | poll {n' : Node} (hMove : Move G.toGate n n') (hGate : G.poll)
      (hDesk : n'.desk = { n.desk with poll := n'.poll }) : Turn G n n'
  /-- The commit index is stored, and `apply_committed`. -/
  | advance (k : Nat) (hNew : n.log.commitIndex < k)
      (hIn : k ≤ n.log.lastIndex ∨ logTermAt n.log k = n.term ∧ G.office n.term) :
      Turn G n (applyCommitted { n with log := { n.log with commitIndex := k } })
  | install (base bt : Nat) (hGate : G.install n.log n.fwd.ackPending base) :
      Turn G n { n with log := installLog base bt }

inductive Turns (G : TurnGate) (n : Node) : Node → Prop
  | refl : Turns G n n
  | next {n₁ n₂ : Node} (hTurns : Turns G n n₁) (hTurn : Turn G n₁ n₂) : Turns G n n₂

variable {T : TurnGate}

theorem Turns.trans (h₁ : Turns T n n₁) (h₂ : Turns T n₁ n₂) : Turns T n n₂ := by
  induction h₂ with
  | refl => exact h₁
  | next _ hTurn ih => exact .next ih hTurn

theorem Turns.one (hTurn : Turn T n n₁) : Turns T n n₁ := .next .refl hTurn

theorem Turns.quiet (hKept : n₁.tracked = n.tracked) (hDesk : n₁.desk = n.desk) :
    Turns T n n₁ := .one (.move (.quiet hKept) hDesk)

theorem Turns.then (hMove : Move T.toGate n n₁) (hDesk : n₁.desk = n.desk)
    (hKept : n₂.tracked = n₁.tracked) (hDesk' : n₂.desk = n₁.desk) : Turns T n n₂ :=
  (Turns.one (.move hMove hDesk)).next (.move (.quiet hKept) hDesk')

variable {e : Effect} {p : Nat}

theorem poll_emit (hPlain : isPoll e = false) : (n.emit e).poll = n.poll := by
  show (⟨_, _, (n.out ++ [e]).filter isPoll⟩ : Poll) = ⟨_, _, n.out.filter isPoll⟩
  rw [filter_append, filter_cons_of_neg (by simp [hPlain]), filter_nil,
    append_nil]
  rfl

theorem desk_emit (hPlain : isPoll e = false) : (n.emit e).desk = n.desk := by
  unfold Node.desk
  rw [poll_emit hPlain]
  rfl

theorem Turns.emitted (e : Effect) (hPlain : e.named = false) (hSilent : isPoll e = false)
    (hKept : n₂.tracked = (n.emit e).tracked) (hDesk : n₂.desk = (n.emit e).desk) :
    Turns T n n₂ := .then (.emit e hPlain) (desk_emit hSilent) hKept hDesk

/-! ## Storage -/

theorem turns_fail : Turns T n (storageWriteFailed n) := by
  refine .one (.move .fail ?_)
  rw [storageWriteFailed_eq]
  rfl

theorem turns_persistMeta : Turns T n (persistMeta n) := by
  unfold persistMeta
  split
  · exact .one (.move (.emit _ rfl) (desk_emit rfl))
  · exact turns_fail

theorem turns_persistWriteFlush : Turns T n (persistWriteFlush n) := by
  have hReserve : ∀ {size effs}, (effs = [] ∨ effs = [.file (.falloc size)]) → Turns T n
      { n with persist := { n.persist with allocSize := size }, out := n.out ++ effs } := by
    rintro size effs (rfl | rfl)
    · exact .quiet (by rw [append_nil]; rfl) (by rw [append_nil]; rfl)
    · exact .emitted (.file (.falloc size)) rfl rfl rfl rfl
  have hFlush := flushes_persistWriteFlush n
  generalize persistWriteFlush n = m at hFlush
  cases hFlush with
  | idle => exact .refl
  | write size effs _ hReserved =>
    exact (hReserve hReserved).trans (.emitted (.file (.write _ _)) rfl rfl rfl rfl)
  | lost size effs _ hReserved =>
    refine ((hReserve hReserved).trans turns_fail).trans (.quiet ?_ ?_) <;>
      rw [storageWriteFailed_eq] <;> rfl

theorem turns_persistSync : Turns T n (persistSync n) := by
  unfold persistSync
  refine turns_persistWriteFlush.trans ?_
  generalize persistWriteFlush n = m
  dsimp only
  split
  · exact .refl
  split
  · split
    · exact (Turns.one (.move (.emit .fsync rfl) (desk_emit rfl))).trans (.then .sync rfl rfl rfl)
    · exact turns_fail
  · exact .one (.move .sync rfl)

theorem turns_persistTruncate (idx : Nat) : Turns T n (persistTruncate n idx) := by
  unfold persistTruncate
  split
  · exact .refl
  refine turns_persistWriteFlush.trans ?_
  generalize persistWriteFlush n = m
  dsimp only
  split
  · exact .emitted (.file (.truncate _)) rfl rfl rfl rfl
  · exact .refl

theorem turns_snapshotWrite (base bt off : Nat) : Turns T n (snapshotWrite n base bt off).1 := by
  unfold snapshotWrite
  split
  · exact .one (.move (.emit _ rfl) (desk_emit rfl))
  · exact .refl

theorem persistTruncate_fields (n : Node) (idx : Nat) :
    (persistTruncate n idx).log = n.log ∧
      (persistTruncate n idx).fwd.ackPending = n.fwd.ackPending := by
  have hFlush := flushed_persistWriteFlush n
  unfold persistTruncate
  split
  · exact ⟨rfl, rfl⟩
  · dsimp only
    split <;> exact ⟨hFlush.log, congrArg _ hFlush.fwd⟩

theorem replaceTail_eq (n : Node) (prev : Nat) (es : List Entry) :
    ∃ m persist, (m = n ∨ m = persistTruncate n (spliceFrom n.log prev)) ∧
      es.foldl logAppend (logTruncateFrom n (prev + 1)) =
        { m with log := spliceLog n.log prev es, persist } := by
  rw [foldl_logAppend]
  unfold logTruncateFrom
  rw [truncate_clamp]
  dsimp only
  by_cases hTail : droppedTail n.log prev = []
  · rw [if_pos ((droppedTail_eq_nil_iff _ _).mp hTail), ← spliceLog_of_noTail hTail]
    exact ⟨n, _, .inl rfl, rfl⟩
  have hLast : ¬ n.log.lastIndex < spliceFrom n.log prev := by
    rwa [← droppedTail_eq_nil_iff]
  have hKeep : spliceFrom n.log prev - 1 - n.log.baseIndex = prev - n.log.baseIndex := by
    unfold spliceFrom
    omega
  rw [if_neg hLast, hKeep]
  dsimp only
  -- the log in memory is the one before the cut
  rw [(persistTruncate_fields n (spliceFrom n.log prev)).1]
  exact ⟨_, _, .inr rfl, rfl⟩

theorem turns_replaceTail (prev : Nat) (es : List Entry)
    (hGate : T.splice n.log n.fwd.ackPending prev es) :
    Turns T n (es.foldl logAppend (logTruncateFrom n (prev + 1))) := by
  obtain ⟨m, persist, hCut, hEq⟩ := replaceTail_eq n prev es
  obtain ⟨hTurns, hLog, hAcks⟩ :
      Turns T n m ∧ m.log = n.log ∧ m.fwd.ackPending = n.fwd.ackPending := by
    rcases hCut with rfl | rfl
    · exact ⟨.refl, rfl, rfl⟩
    · exact ⟨turns_persistTruncate _, persistTruncate_fields n _⟩
  rw [← hLog, ← hAcks] at hGate
  rw [hEq, ← hLog]
  exact hTurns.trans (.then (.splice prev es hGate) rfl rfl rfl)

theorem turns_installSnapshot (base bt : Nat) (topo : List TopoRec)
    (hGate : T.install n.log n.fwd.ackPending base) :
    Turns T n (installSnapshot n base bt topo) := by
  unfold installSnapshot
  dsimp only
  have hInstall : Turns T n { n with log := installLog base bt } := .one (.install base bt hGate)
  by_cases hIo : n.io.truncateOk = true
  · rw [if_pos hIo]
    have hCut := hInstall.next (.move (.emit (.file (.truncate 0)) rfl) (desk_emit rfl))
    split <;> exact hCut.next (.move (.quiet rfl) rfl)
  · rw [if_neg hIo]
    split <;> exact hInstall.next (.move (.quiet rfl) rfl)

theorem turns_rebaseTo (upto off : Nat) (hNew : n.log.baseIndex < upto)
    (hApplied : upto ≤ n.log.appliedIndex) : Turns T n (rebaseTo n upto off) := by
  unfold rebaseTo
  dsimp only
  have hRebase : Turns T n { n with log := rebaseLog n.log upto
                                    persist := rebasePersist n.persist n.log upto off } :=
    .then (.rebase upto hNew hApplied) rfl rfl rfl
  split
  · exact hRebase.next (.move (.emit (.file (.punch off)) rfl) (desk_emit rfl))
  · exact hRebase

theorem turns_logCompactTo (upto : Nat) : Turns T n (logCompactTo n upto) := by
  by_cases hGo : n.io.snapshotOk = true ∧
      n.log.baseIndex + clCompactBatch ≤ compactIndex n upto
  · rw [logCompactTo_eq hGo.1 hGo.2]
    have hApplied : compactIndex n upto ≤ n.log.appliedIndex := by
      unfold compactIndex
      dsimp only
      split
      · split <;> omega
      · omega
    have hNew : n.log.baseIndex < compactIndex n upto := by
      have := hGo.2
      unfold clCompactBatch at this
      omega
    generalize compactIndex n upto = u at hApplied hNew
    set m := n.emit (.snapshot (boundarySnap n u))
    have hLog : (persistWriteFlush m).log = n.log := (flushed_persistWriteFlush m).log
    have hWrite : Turns T n (persistWriteFlush m) :=
      (Turns.one (.move (.emit _ rfl) (desk_emit rfl))).trans turns_persistWriteFlush
    exact hWrite.trans (turns_rebaseTo u _ (by rw [hLog]; exact hNew) (by rw [hLog]; exact hApplied))
  · rw [logCompactTo_none hGo]
    exact .refl

/-! ## Stages -/

def Effect.lasting : Effect → Bool
  | .send _ (.voteReq _ _ _) => true
  | .send _ (.voteResp _ true) => true
  | .send _ _ => false
  | _ => true

def Effect.idle (e : Effect) : Bool := !e.named && !isPoll e && !e.lasting

structure Ground where
  cfg : Config
  io : Io
  term : Nat
  votedFor : Option Nat
  role : Role
  votes : Nat
  failed : Bool
  base : Nat
  entries : List Entry
  persist : Persist
  done : List Effect

def Node.ground (n : Node) : Ground where
  cfg := n.cfg
  io := n.io
  term := n.term
  votedFor := n.votedFor
  role := n.role
  votes := n.votesGranted
  failed := n.storageFailed
  base := n.log.baseIndex
  entries := n.log.entries
  persist := n.persist
  done := n.out.filter Effect.lasting

inductive Stores (G : Gate) (n : Node) : Node → Prop
  | flush : Stores G n (persistWriteFlush n)
  | sync : Stores G n (persistSync n)
  | append (e : Entry) (hRole : n.role = .leader) (hTerm : e.term = n.term)
      (hGate : G.append e) : Stores G n (logAppend n e)
  | splice (prev : Nat) (es : List Entry) (hGate : G.splice n.log n.fwd.ackPending prev es) :
      Stores G n (es.foldl logAppend (logTruncateFrom n (prev + 1)))
  | install (base bt : Nat) (topo : List TopoRec)
      (hGate : G.install n.log n.fwd.ackPending base) :
      Stores G n (installSnapshot n base bt topo)
  | compact (upto : Nat) : Stores G n (logCompactTo n upto)
  | snapshot (base bt off : Nat) : Stores G n (snapshotWrite n base bt off).1

structure StageGate extends TurnGate where
  /-- A vote is asked for, cast, granted or counted. -/
  ballot : Prop := True
  /-- Storage calls succeed or fail as given from here on. -/
  io : Io → Prop := fun _ => True

abbrev TurnGate.open (T : TurnGate) : StageGate := { toTurnGate := T }

inductive Stage (Q : StageGate) (n : Node) : Node → Prop
  | turn {n' : Node} (hTurn : Turn Q.toTurnGate n n') (hGround : n'.ground = n.ground) :
      Stage Q n n'
  | store {n' : Node} (hStores : Stores Q.toGate n n') : Stage Q n n'
  /-- `observe_term` on a higher term. -/
  | adopt (t : Nat) (hNew : n.term < t) :
      Stage Q n (persistMeta { n with term := t, votedFor := none, role := .follower })
  /-- `become_candidate`. -/
  | campaign (hGate : Q.campaign) :
      Stage Q n (persistMeta { n with term := n.term + 1, votedFor := some n.cfg.selfId
                                      role := .candidate, votesGranted := 1 })
  | vote (p : Nat) (hFree : n.votedFor = none ∨ n.votedFor = some p) (hBallot : Q.ballot) :
      Stage Q n (persistMeta { n with votedFor := some p })
  | grant (p : Nat) (hGate : Q.grant n p) (hBallot : Q.ballot) :
      Stage Q n (clSend n p (.voteResp n.wireTerm true))
  | request (p t li lt : Nat) (hBallot : Q.ballot) : Stage Q n (clSend n p (.voteReq t li lt))
  | count (hBallot : Q.ballot) : Stage Q n { n with votesGranted := n.votesGranted + 1 }
  | follow : Stage Q n { n with role := .follower }
  | lead (hGate : Q.lead n) : Stage Q n { n with role := .leader }
  | setIo (io : Io) (hGate : Q.io io) : Stage Q n { n with io }

inductive Stages (Q : StageGate) (n : Node) : Node → Prop
  | refl : Stages Q n n
  | next {n₁ n₂ : Node} (hStages : Stages Q n n₁) (hStage : Stage Q n₁ n₂) : Stages Q n n₂

variable {Q : StageGate}

theorem Stores.turns (h : Stores T.toGate n n₁) : Turns T n n₁ := by
  cases h with
  | flush => exact turns_persistWriteFlush
  | sync => exact turns_persistSync
  | append e hRole hTerm hGate => exact .then (.append e hRole hTerm hGate) rfl rfl rfl
  | splice prev es hGate => exact turns_replaceTail prev es hGate
  | install base bt topo hGate => exact turns_installSnapshot base bt topo hGate
  | compact upto => exact turns_logCompactTo upto
  | snapshot base bt off => exact turns_snapshotWrite base bt off

theorem Stage.turns (h : Stage Q n n₁) : Turns Q.toTurnGate n n₁ := by
  cases h with
  | turn hTurn _ => exact .one hTurn
  | store hStores => exact hStores.turns
  | adopt t hNew => exact (Turns.one (.adopt t hNew)).trans turns_persistMeta
  | campaign hGate =>
    have hOwn : Turns Q.toTurnGate n
        { n with term := n.term + 1, votedFor := some n.cfg.selfId, role := .candidate,
                 votesGranted := 1 } :=
      (Turns.one (.campaign hGate)).trans (.quiet rfl rfl)
    exact hOwn.trans turns_persistMeta
  | vote p hFree _ => exact (Turns.one (.move (.vote p hFree) rfl)).trans turns_persistMeta
  | grant p hGate _ => exact .one (.move (.grant p hGate) (desk_emit rfl))
  | request p t li lt _ => exact .one (.move (.emit _ rfl) (desk_emit rfl))
  | count _ => exact .quiet rfl rfl
  | follow => exact .one (.move .follow rfl)
  | lead hGate => exact .one (.move (.lead hGate) rfl)
  | setIo io _ => exact .one (.move (.setIo io) rfl)

theorem Stages.turns (h : Stages Q n n₁) : Turns Q.toTurnGate n n₁ := by
  induction h with
  | refl => exact .refl
  | next _ hStage ih => exact ih.trans hStage.turns

theorem Turns.of (h : Stages T.open n n₁) : Turns T n n₁ := h.turns

theorem Stages.trans (h₁ : Stages Q n n₁) (h₂ : Stages Q n₁ n₂) : Stages Q n n₂ := by
  induction h₂ with
  | refl => exact h₁
  | next _ hStage ih => exact .next ih hStage

theorem Stages.one (hStage : Stage Q n n₁) : Stages Q n n₁ := .next .refl hStage

theorem Stages.move (hMove : Move Q.toGate n n₁) (hDesk : n₁.desk = n.desk)
    (hGround : n₁.ground = n.ground) : Stages Q n n₁ := .one (.turn (.move hMove hDesk) hGround)

theorem Stages.quiet (hKept : n₁.tracked = n.tracked) (hDesk : n₁.desk = n.desk)
    (hGround : n₁.ground = n.ground) : Stages Q n n₁ := .move (.quiet hKept) hDesk hGround

theorem Stages.after (hStages : Stages Q n₁ n₂) (hKept : n₁.tracked = n.tracked)
    (hDesk : n₁.desk = n.desk) (hGround : n₁.ground = n.ground) : Stages Q n n₂ :=
  (Stages.quiet hKept hDesk hGround).trans hStages

theorem Stages.foldl {α : Type} {f : Node → α → Node} {P : Node → Prop} (xs : List α)
    (hStep : ∀ m, ∀ x ∈ xs, P m → Stages Q m (f m x) ∧ P (f m x)) (hP : P n) :
    Stages Q n (xs.foldl f n) ∧ P (xs.foldl f n) := by
  induction xs generalizing n with
  | nil => exact ⟨.refl, hP⟩
  | cons x xs ih =>
    obtain ⟨hStages, hP'⟩ := hStep n x mem_cons_self hP
    obtain ⟨hRest, hEnd⟩ := ih (fun m y hy => hStep m y (mem_cons_of_mem _ hy)) hP'
    exact ⟨hStages.trans hRest, hEnd⟩

theorem Stages.foldl_free {α : Type} {f : Node → α → Node}
    (hStep : ∀ m x, Stages Q m (f m x)) (xs : List α) : Stages Q n (xs.foldl f n) :=
  (Stages.foldl (P := fun _ => True) xs (fun m x _ _ => ⟨hStep m x, trivial⟩) trivial).1

theorem ground_emit (hPassing : e.lasting = false) : (n.emit e).ground = n.ground := by
  have hDone : (n.out ++ [e]).filter Effect.lasting = n.out.filter Effect.lasting := by
    rw [filter_append, filter_cons_of_neg (by simp [hPassing]), filter_nil,
      append_nil]
  show ({ n.ground with done := (n.out ++ [e]).filter Effect.lasting } : Ground) = _
  rw [hDone]
  rfl

theorem applyAll_of_passing {effs : List Effect} (h : ∀ e ∈ effs, e.lasting = false) (d : Disk) :
    d.applyAll effs = d := by
  induction effs generalizing d with
  | nil => rfl
  | cons e effs ih =>
    have hSame : d.apply e = d := by
      cases e with
      | send p f => rfl
      | _ => exact absurd (h _ mem_cons_self) (by simp [Effect.lasting])
    show (d.apply e).applyAll effs = d
    rw [hSame]
    exact ih (fun x hx => h x (mem_cons_of_mem _ hx)) d

theorem Stages.emitted (e : Effect) (hIdle : e.idle = true)
    (hKept : n₂.tracked = (n.emit e).tracked) (hDesk : n₂.desk = (n.emit e).desk)
    (hGround : n₂.ground = (n.emit e).ground) : Stages Q n n₂ := by
  unfold Effect.idle at hIdle
  simp only [Bool.and_eq_true, Bool.not_eq_true'] at hIdle
  obtain ⟨⟨hPlain, hSilent⟩, hPassing⟩ := hIdle
  exact (Stages.move (.emit e hPlain) (desk_emit hSilent) (ground_emit hPassing)).trans
    (.quiet hKept hDesk hGround)

theorem stages_clSend {f : Frame} (hIdle : Effect.idle (.send p f) = true) :
    Stages Q n (clSend n p f) := .emitted _ hIdle rfl rfl rfl

theorem stages_sendPoll {f : Frame} (p : Nat) (hPoll : isPoll (.send p f) = true)
    (hGate : Q.poll) : Stages Q n (clSend n p f) := by
  have hGround : (clSend n p f).ground = n.ground :=
    ground_emit (by cases f <;> first | rfl | cases hPoll)
  exact .one (.turn (.poll (.emit _ (by cases f <;> first | rfl | cases hPoll)) hGate rfl) hGround)

/-! ## Applying and committing -/

theorem foldl_markCommitted_eq (seqs : List Nat) (f : Forwarding) :
    ∃ statusVal statusSeq, seqs.foldl markCommitted f = { f with statusVal, statusSeq } := by
  induction seqs generalizing f with
  | nil => exact ⟨_, _, rfl⟩
  | cons seq seqs ih =>
    obtain ⟨statusVal, statusSeq, hEq⟩ := ih (markCommitted f seq)
    rw [foldl_cons, hEq]
    unfold markCommitted
    split <;> exact ⟨_, _, rfl⟩

theorem resolveLocalFwdAcks_eq (n : Node) :
    ∃ statusVal statusSeq markedSeq, resolveLocalFwdAcks n =
      { n with fwd := { n.fwd with statusVal, statusSeq, markedSeq } } := by
  unfold resolveLocalFwdAcks
  split
  · exact ⟨_, _, _, rfl⟩
  dsimp only
  obtain ⟨statusVal, statusSeq, hEq⟩ := foldl_markCommitted_eq
    (List.range' (firstMarked n.fwd) (n.fwd.ackedSeq + 1 - firstMarked n.fwd)) n.fwd
  rw [hEq]
  exact ⟨_, _, _, rfl⟩

theorem resolveLocalFwdAcks_kept (n : Node) :
    (resolveLocalFwdAcks n).tracked = n.tracked ∧ (resolveLocalFwdAcks n).desk = n.desk ∧
      (resolveLocalFwdAcks n).ground = n.ground := by
  obtain ⟨_, _, _, hEq⟩ := resolveLocalFwdAcks_eq n
  rw [hEq]
  exact ⟨rfl, rfl, rfl⟩

theorem stages_ackOrigin (bump bumpIdx : Nat → Nat) (id : Nat) :
    Stages Q n (ackOrigin bump bumpIdx n id) := by
  unfold ackOrigin
  split
  · exact .refl
  dsimp only
  split
  · exact .emitted (.send id (.forwardAck _ _ _)) rfl rfl rfl rfl
  · exact .quiet rfl rfl rfl

theorem popFwdAcks_eq (selfId commit : Nat) (acks : List FwdAck) (f : Forwarding)
    (bump bumpIdx : Nat → Nat) :
    ∃ k statusVal statusSeq, (popFwdAcks selfId commit acks f bump bumpIdx).1 =
        { f with ackPending := acks.drop k, statusVal, statusSeq } ∧
      ∀ a ∈ acks.take k, a.logIndex ≤ commit := by
  induction acks generalizing f bump bumpIdx with
  | nil => exact ⟨0, _, _, rfl, by simp⟩
  | cons a acks ih =>
    unfold popFwdAcks
    split
    · exact ⟨0, _, _, rfl, by simp⟩
    rename_i hDone
    have hNext : ∀ f bump bumpIdx, ∃ k statusVal statusSeq,
        (popFwdAcks selfId commit acks f bump bumpIdx).1 =
            { f with ackPending := (a :: acks).drop k, statusVal, statusSeq } ∧
          ∀ b ∈ (a :: acks).take k, b.logIndex ≤ commit := by
      intro f bump bumpIdx
      obtain ⟨k, statusVal, statusSeq, hEq, hTake⟩ := ih f bump bumpIdx
      refine ⟨k + 1, statusVal, statusSeq, hEq, ?_⟩
      intro b hb
      rcases mem_cons.mp hb with rfl | hb
      · exact Nat.le_of_not_lt hDone
      · exact hTake b hb
    split
    · obtain ⟨statusVal, statusSeq, hMark⟩ := foldl_markCommitted_eq [a.seq] f
      rw [show markCommitted f a.seq = _ from hMark]
      exact hNext _ _ _
    split
    · exact hNext _ _ _
    · exact hNext _ _ _

theorem resolveFwdAcks_eq (n : Node) :
    ∃ fwd out, resolveFwdAcks n = { n with fwd, out } ∧ fwd.inbox = n.fwd.inbox := by
  have hFold : ∀ (bump bumpIdx : Nat → Nat) (ids : List Nat) (m : Node),
      ∃ fwd out, ids.foldl (ackOrigin bump bumpIdx) m = { m with fwd, out } ∧
        fwd.inbox = m.fwd.inbox := by
    intro bump bumpIdx ids
    induction ids with
    | nil => exact fun m => ⟨_, _, rfl, rfl⟩
    | cons id ids ih =>
      intro m
      have hOne : ∃ fwd out, ackOrigin bump bumpIdx m id = { m with fwd, out } ∧
          fwd.inbox = m.fwd.inbox := by
        unfold ackOrigin
        split
        · exact ⟨_, _, rfl, rfl⟩
        dsimp only
        split <;> exact ⟨_, _, rfl, rfl⟩
      obtain ⟨fwd₁, out₁, hEq₁, hInbox₁⟩ := hOne
      obtain ⟨fwd, out, hEq, hInbox⟩ := ih (ackOrigin bump bumpIdx m id)
      rw [hEq₁] at hEq hInbox
      exact ⟨fwd, out, by rw [foldl_cons, hEq₁, hEq], hInbox.trans hInbox₁⟩
  unfold resolveFwdAcks
  obtain ⟨k, statusVal, statusSeq, hPop, -⟩ := popFwdAcks_eq n.cfg.selfId n.log.commitIndex
    n.fwd.ackPending n.fwd (fun _ => 0) (fun _ => 0)
  obtain ⟨fwd, out, hEq, hInbox⟩ := hFold _ _ _ _
  exact ⟨fwd, out, hEq, by rw [hInbox, hPop]⟩

theorem resolveFwdAcks_log (n : Node) : (resolveFwdAcks n).log = n.log := by
  obtain ⟨_, _, hEq, -⟩ := resolveFwdAcks_eq n
  rw [hEq]

theorem stages_resolveFwdAcks (hApplied : n.log.commitIndex ≤ n.log.appliedIndex) :
    Stages Q n (resolveFwdAcks n) := by
  unfold resolveFwdAcks
  obtain ⟨k, statusVal, statusSeq, hEq, hTake⟩ := popFwdAcks_eq n.cfg.selfId n.log.commitIndex
    n.fwd.ackPending n.fwd (fun _ => 0) (fun _ => 0)
  generalize popFwdAcks n.cfg.selfId n.log.commitIndex n.fwd.ackPending n.fwd
    (fun _ => 0) (fun _ => 0) = res at hEq
  obtain ⟨f, bump, bumpIdx⟩ := res
  obtain rfl : f = { n.fwd with ackPending := n.fwd.ackPending.drop k, statusVal, statusSeq } := hEq
  have hPop := Move.pop (G := Q.toGate) (n := n)
    { n.fwd with ackPending := n.fwd.ackPending.drop k, statusVal, statusSeq } k rfl
    fun a ha => (hTake a ha).trans hApplied
  refine Stages.trans (.move hPop rfl rfl) ?_
  exact Stages.foldl_free (fun m id => stages_ackOrigin bump bumpIdx id) _

theorem logAt_le_last {l : Log} {idx : Nat} {e : Entry} (hAt : logAt l idx = some e) :
    l.baseIndex < idx ∧ idx ≤ l.lastIndex := by
  unfold logAt at hAt
  split at hAt
  · cases hAt
  have hLen := (List.getElem?_eq_some_iff.mp hAt).1
  unfold Log.lastIndex
  omega

theorem exists_logAt {l : Log} {i : Nat} (hBase : l.baseIndex < i) (hLast : i ≤ l.lastIndex) :
    ∃ e, logAt l i = some e := by
  unfold Log.lastIndex at hLast
  unfold logAt
  rw [if_neg (by omega)]
  exact ⟨_, getElem?_eq_getElem (by omega)⟩

/-- The entries among `count` indexes from `first` on, with their indexes. -/
def entriesAt (l : Log) (first count : Nat) : List (Nat × Entry) :=
  (List.range' first count).filterMap fun i => (logAt l i).map fun e => (i, e)

theorem entriesAt_succ (l : Log) (first count : Nat) :
    entriesAt l first (count + 1) =
      ((logAt l first).map fun e => (first, e)).toList ++ entriesAt l (first + 1) count := by
  unfold entriesAt
  rw [range'_succ, filterMap_cons]
  cases logAt l first <;> rfl

theorem applyNext_kept :
    (applyNext n).tracked = { n.tracked with
        log := { n.log with appliedIndex := n.log.appliedIndex + 1 }
        history := n.history ++ ((logAt n.log (n.log.appliedIndex + 1)).map
          fun e => (n.log.appliedIndex + 1, e)).toList } ∧
      (applyNext n).desk = { n.desk with applied := n.log.appliedIndex + 1 } ∧
      (applyNext n).ground = n.ground := by
  unfold applyNext
  dsimp only
  cases logAt n.log (n.log.appliedIndex + 1) with
  | none =>
    rw [Option.map_none, Option.toList_none, append_nil]
    exact ⟨rfl, rfl, rfl⟩
  | some e => exact ⟨rfl, rfl, rfl⟩

theorem applyLoop_kept (k : Nat) :
    (applyLoop k n).tracked = { n.tracked with
        log := { n.log with appliedIndex := n.log.appliedIndex + k }
        history := n.history ++ entriesAt n.log (n.log.appliedIndex + 1) k } ∧
      (applyLoop k n).desk = { n.desk with applied := n.log.appliedIndex + k } ∧
      (applyLoop k n).ground = n.ground := by
  induction k generalizing n with
  | zero =>
    refine ⟨?_, rfl, rfl⟩
    show n.tracked = { n.tracked with history := n.history ++ [] }
    rw [append_nil]
    rfl
  | succ k ih =>
    obtain ⟨hKept, hDesk, hGround⟩ := applyNext_kept (n := n)
    have hLog : (applyNext n).log = { n.log with appliedIndex := n.log.appliedIndex + 1 } :=
      congrArg Tracked.log hKept
    obtain ⟨hKept', hDesk', hGround'⟩ := ih (n := applyNext n)
    -- the loop below starts one index further on a log with the same entries
    have hSum : n.log.appliedIndex + 1 + k = n.log.appliedIndex + (k + 1) := by omega
    refine ⟨hKept'.trans ?_, hDesk'.trans ?_, hGround'.trans hGround⟩
    · rw [entriesAt_succ, ← append_assoc, hKept, hLog,
        show (applyNext n).history = _ from congrArg Tracked.history hKept]
      dsimp only
      rw [hSum]
      rfl
    · rw [hDesk, hLog]
      dsimp only
      rw [hSum]

theorem applyCommitted_kept :
    (applyCommitted n).tracked = { n.tracked with
        log := { n.log with appliedIndex := max n.log.appliedIndex n.log.commitIndex }
        history := n.history ++
          entriesAt n.log (n.log.appliedIndex + 1) (n.log.commitIndex - n.log.appliedIndex) } ∧
      (applyCommitted n).desk =
        { n.desk with applied := max n.log.appliedIndex n.log.commitIndex } ∧
      (applyCommitted n).ground = n.ground := by
  have hMax : n.log.appliedIndex + (n.log.commitIndex - n.log.appliedIndex) =
      max n.log.appliedIndex n.log.commitIndex := by omega
  obtain ⟨hKept, hDesk, hGround⟩ :=
    applyLoop_kept (n := n) (n.log.commitIndex - n.log.appliedIndex)
  obtain ⟨hKept', hDesk', hGround'⟩ := resolveLocalFwdAcks_kept
    (applyLoop (n.log.commitIndex - n.log.appliedIndex) n)
  rw [hMax] at hKept hDesk
  exact ⟨hKept'.trans hKept, hDesk'.trans hDesk, hGround'.trans hGround⟩

theorem moves_applyLoop (k : Nat) (hCommit : n.log.appliedIndex + k ≤ n.log.commitIndex) :
    Moves G n (applyLoop k n) := by
  induction k generalizing n with
  | zero => exact .refl
  | succ k ih =>
    have hKept := (applyNext_kept (n := n)).1
    have hLog : (applyNext n).log = _ := congrArg Tracked.log hKept
    refine (Moves.then (.apply (by omega)) hKept).trans (ih ?_)
    rw [hLog]
    dsimp only
    omega

theorem moves_applyCommitted : Moves G n (applyCommitted n) := by
  refine Moves.trans ?_ (.quiet (resolveLocalFwdAcks_kept _).1)
  by_cases hLe : n.log.appliedIndex ≤ n.log.commitIndex
  · exact moves_applyLoop _ (by omega)
  · rw [Nat.sub_eq_zero_of_le (by omega)]
    exact .refl

theorem Turns.moves (h : Turns T n n₁) : Moves T.toGate n n₁ := by
  induction h with
  | refl => exact .refl
  | next _ hTurn ih =>
    cases hTurn with
    | move hMove _ => exact ih.next hMove
    | adopt t hNew => exact ih.next (.adopt t hNew)
    | campaign _ => exact ih.next .campaign
    | endRound => exact ih.next (.quiet rfl)
    | poll hMove _ _ => exact ih.next hMove
    | advance k hNew _ => exact (ih.next (.commit k hNew)).trans moves_applyCommitted
    | install base bt hGate => exact ih.next (.install base bt hGate)

theorem Move.out (h : Move G n n₁) : ∃ effs, n₁.out = n.out ++ effs := by
  cases h with
  | quiet hKept => exact ⟨[], (congrArg Tracked.out hKept).trans (append_nil _).symm⟩
  | emit | grant | ack | sendAppend => exact ⟨_, rfl⟩
  | fail =>
    rw [storageWriteFailed_eq]
    exact ⟨[], (append_nil _).symm⟩
  | _ => exact ⟨[], (append_nil _).symm⟩

theorem Moves.out (h : Moves G n n₁) : ∃ effs, n₁.out = n.out ++ effs := by
  induction h with
  | refl => exact ⟨[], (append_nil _).symm⟩
  | next _ hMove ih =>
    obtain ⟨effs, hOut⟩ := ih
    obtain ⟨effs', hOut'⟩ := hMove.out
    exact ⟨effs ++ effs', by rw [hOut', hOut, append_assoc]⟩

theorem Turn.passing (h : Turn T n n₁) (hGround : n₁.ground = n.ground) :
    ∃ effs, n₁.out = n.out ++ effs ∧ ∀ e ∈ effs, e.lasting = false := by
  obtain ⟨effs, hOut⟩ := (Turns.one h).moves.out
  have hDone : n₁.out.filter Effect.lasting = n.out.filter Effect.lasting :=
    congrArg Ground.done hGround
  rw [hOut, filter_append, append_right_eq_self] at hDone
  refine ⟨effs, hOut, fun e he => ?_⟩
  have hNot := filter_eq_nil_iff.mp hDone e he
  exact eq_false_of_ne_true hNot

theorem stages_advanceCommit (hOffice : Q.office n.term) : Stages Q n (advanceCommit n) := by
  unfold advanceCommit
  dsimp only
  refine Stages.trans ?_ (.move (.free _) rfl rfl)
  split
  · rename_i hNew
    refine Stages.trans (.one (.turn (.advance _ hNew.1 (.inr ⟨hNew.2, hOffice⟩))
      applyCommitted_kept.2.2)) (stages_resolveFwdAcks ?_)
    have hLog : (applyCommitted { n with log := { n.log with commitIndex := quorumIndex n } }).log =
        _ := congrArg Tracked.log applyCommitted_kept.1
    rw [hLog]
    exact le_max_right _ _
  · exact .refl

/-! ## Replication -/

variable (p : Nat)

theorem stages_sendAppend : Stages Q n (sendAppend n p) := by
  unfold sendAppend
  exact (Stages.move (.sendAppend p (if (n.peer p).nextIndex = 0 then 1 else (n.peer p).nextIndex)
    n.throttle (by split <;> omega)) (desk_emit rfl) (ground_emit rfl)).trans (.quiet rfl rfl rfl)

theorem stages_updPeer (f : Peer → Peer) : Stages Q n (n.updPeer p f) :=
  .quiet rfl rfl rfl

theorem pumped_stages : Pumped (Stages Q) where
  refl _ := .refl
  trans := Stages.trans
  peer _ p f := stages_updPeer p f
  send _ _ f hStreams := stages_clSend (by cases f <;> first | rfl | cases hStreams)
  append _ p := stages_sendAppend p

theorem stages_pumpPeer : Stages Q n (pumpPeer n p) := pumped_stages.pumpPeer n p

theorem stages_replicateToPeers : Stages Q n (replicateToPeers n) :=
  pumped_stages.replicateToPeers n

/-! ## Proposals -/

theorem stages_proposeInternal (op : Nat) (data : Bytes) : Stages Q n (proposeInternal n op data) :=
  .quiet rfl rfl rfl

theorem stages_forwardLoop (k : Nat) (list : List Proposal) :
    Stages Q n (forwardLoop k n list) := by
  induction k generalizing n list with
  | zero => exact .quiet rfl rfl rfl
  | succ k ih =>
    unfold forwardLoop
    split
    · exact .refl
    · split
      · dsimp only
        refine Stages.trans ?_ (ih _)
        exact (stages_clSend rfl).trans (.quiet rfl rfl rfl)
      · exact .quiet rfl rfl rfl
    · exact .quiet rfl rfl rfl

theorem stages_resendPending : Stages Q n (resendPending n) := by
  unfold resendPending forwardBatchToLeader
  have hTaken : Stages Q n { n with fwd := { n.fwd with pending := [] } } :=
    .quiet rfl rfl rfl
  exact hTaken.trans (stages_forwardLoop _ _)

theorem stages_leaderAppend (op : Nat) (data : Bytes)
    (hAppend : n.role = .leader → Q.append ⟨n.term, op, data⟩) :
    Stages Q n (leaderAppend n op data) := by
  unfold leaderAppend
  split
  · rename_i hRole
    refine Stages.trans (.one (.store (.append ⟨n.term, op, data⟩ hRole rfl (hAppend hRole)))) ?_
    exact .move (.flag true fun _ => hRole) rfl rfl
  · exact .refl

theorem stages_pushFwdAck (a : FwdAck) (hPush : Q.push) :
    Stages Q n { n with fwd := pushFwdAckPending n.fwd a } := by
  unfold pushFwdAckPending
  split
  · exact .refl
  · exact .move (.push a hPush) rfl rfl

theorem stages_leaderUpdateFlow : Stages Q n (leaderUpdateFlow n) := by
  unfold leaderUpdateFlow
  dsimp only
  split
  · exact .quiet rfl rfl rfl
  split
  · exact .quiet rfl rfl rfl
  · exact .refl

theorem stages_leaderFlush (hOffice : n.logDirty = true → Q.office n.term) :
    Stages Q n (leaderFlush n) := by
  unfold leaderFlush
  split
  · rename_i hDirty
    refine Stages.trans ?_ stages_leaderUpdateFlow
    have hSent : Stages Q n (replicateToPeers (persistWriteFlush { n with logDirty := false })) :=
      ((Stages.move (.flag false (by simp)) rfl rfl).next (.store .flush)).trans
        stages_replicateToPeers
    refine hSent.trans (stages_advanceCommit ?_)
    obtain ⟨peer, out, hEq⟩ :=
      pumped_sends.replicateToPeers (persistWriteFlush { n with logDirty := false })
    rw [hEq]
    show Q.office (persistWriteFlush { n with logDirty := false }).term
    rw [(flushed_persistWriteFlush _).term]
    exact hOffice hDirty
  · exact .refl

def TakesOps (G : Gate) (n : Node) (ops : List Proposal) : Prop :=
  n.role = .leader → G.push ∧ ∀ pr ∈ ops, G.append ⟨n.term, pr.op, pr.data⟩

theorem stages_drainOne (pr : Proposal)
    (hOk : n.role = .leader → Q.push ∧ Q.append ⟨n.term, pr.op, pr.data⟩) :
    Stages Q n (drainOne n pr) := by
  unfold drainOne
  split
  · rename_i hRole
    refine (stages_leaderAppend pr.op pr.data fun _ => (hOk hRole).2).trans ?_
    exact stages_pushFwdAck _ (hOk hRole).1
  · exact stages_proposeInternal _ _

theorem drainOne_fields (pr : Proposal) :
    (drainOne n pr).role = n.role ∧ (drainOne n pr).term = n.term := by
  unfold drainOne leaderAppend
  split <;> exact ⟨rfl, rfl⟩

theorem stages_drainLoop (list : List Proposal) (hOk : TakesOps Q.toGate n list) :
    Stages Q n (list.foldl drainOne n) ∧
      (list.foldl drainOne n).role = n.role ∧ (list.foldl drainOne n).term = n.term := by
  refine Stages.foldl (P := fun m => m.role = n.role ∧ m.term = n.term) list ?_ ⟨rfl, rfl⟩
  rintro m pr hMem ⟨hRole, hTerm⟩
  refine ⟨stages_drainOne pr fun hLead => ?_, ?_⟩
  · obtain ⟨hPush, hAppend⟩ := hOk (hRole.symm.trans hLead)
    rw [hTerm]
    exact ⟨hPush, hAppend pr hMem⟩
  · obtain ⟨hRole', hTerm'⟩ := drainOne_fields (n := m) pr
    exact ⟨hRole'.trans hRole, hTerm'.trans hTerm⟩

theorem stages_drainInbox (hOk : TakesOps Q.toGate n n.fwd.inbox)
    (hOffice : n.role = .leader → Q.office n.term) : Stages Q n (drainInbox n) := by
  unfold drainInbox
  dsimp only
  have hTaken : Stages Q n { n with fwd := { n.fwd with inbox := [] } } :=
    .quiet rfl rfl rfl
  split
  · exact hTaken.trans (stages_forwardLoop _ _)
  rename_i hRole
  obtain ⟨hLoop, -, hTerm⟩ := stages_drainLoop (Q := Q)
    (n := { n with fwd := { n.fwd with inbox := [] } }) n.fwd.inbox hOk
  refine (hTaken.trans hLoop).trans (stages_leaderFlush fun _ => ?_)
  rw [hTerm]
  exact hOffice (not_not.mp hRole)

theorem stages_peerOnLinkUp : Stages Q n (peerOnLinkUp n p) := by
  unfold peerOnLinkUp
  dsimp only
  have hPump : ∀ f, Stages Q n (pumpPeer (n.updPeer p f) p) := fun f =>
    (stages_updPeer p _).trans (stages_pumpPeer p)
  split
  · exact (hPump _).trans (stages_resendPending)
  · exact hPump _

/-! ## Elections -/

theorem stages_observeTerm (t : Nat) : Stages Q n (observeTerm n t).1 := by
  unfold observeTerm
  split
  · exact .refl
  rename_i hNew
  have hLeft : Stages Q n { n with inPrevote := false, leaderId := none, throttle := false } :=
    (Stages.one (.turn .endRound rfl)).trans (.quiet rfl rfl rfl)
  exact hLeft.next (.adopt t (Nat.lt_of_not_le hNew))

/-- What a handler finds after `observe_term`, whether or not the term could be written. -/
structure TermSeen (t : Nat) (n n' : Node) : Prop where
  term : n'.term = max n.term t
  log : n'.log = n.log
  fwd : n'.fwd = n.fwd
  peer : n'.peer = n.peer
  io : n'.io = n.io

theorem observeTerm_fields (n : Node) (t : Nat) : TermSeen t n (observeTerm n t).1 := by
  unfold observeTerm
  split
  · rename_i hLe
    exact ⟨(max_eq_left hLe).symm, rfl, rfl, rfl, rfl⟩
  rename_i hLe
  have hMax : t = max n.term t := (max_eq_right (Nat.le_of_not_le hLe)).symm
  unfold persistMeta
  dsimp only
  split
  · exact ⟨hMax, rfl, rfl, rfl, rfl⟩
  · rw [storageWriteFailed_eq]
    exact ⟨hMax, rfl, rfl, rfl, rfl⟩

theorem stages_ifCurrent {t : Nat} {next : Node → Node} (hNext : t ≤ n.term → Stages Q n (next n)) :
    Stages Q n (match observeTerm n t with
      | (m, true) => m
      | (m, false) => next m) :=
  observeTerm_elim (P := fun m => Stages Q n m) (stages_observeTerm t) hNext

theorem stages_sendVoteRequest (prevote : Bool) (hPoll : prevote = true → Q.poll)
    (hBallot : prevote = false → Q.ballot) : Stages Q n (sendVoteRequest n prevote) := by
  unfold sendVoteRequest
  refine Stages.foldl_free (fun m p => ?_) _
  split
  · cases prevote with
    | false => exact .one (.request p _ _ _ (hBallot rfl))
    | true => exact stages_sendPoll p rfl (hPoll rfl)
  · exact .refl

theorem stages_becomeLeader (hLead : Q.lead n) (hNoop : Q.append ⟨n.term, ClOp.noop.code, []⟩)
    : Stages Q n (becomeLeader n) := by
  unfold becomeLeader
  extract_lets next m m₁ m₂
  have hRole : Stages Q n m := by
    have hLeft : Stages Q { n with role := .leader }
        { n with role := .leader, inPrevote := false, peer := m.peer } :=
      (Stages.one (.turn .endRound rfl)).trans (.quiet rfl rfl rfl)
    exact ((Stages.one (.lead hLead)).trans hLeft).trans (.quiet rfl rfl rfl)
  have hAppend : Stages Q m m₁ :=
    .one (.store (.append ⟨n.term, ClOp.noop.code, []⟩ rfl rfl hNoop))
  have hSent : Stages Q n m₂ := (hRole.trans hAppend).trans stages_replicateToPeers
  split
  · exact hSent
  · exact hSent.trans (stages_proposeInternal _ _)

/-- The node of `become_candidate` when it counts its votes. -/
def campaigning (n : Node) : Node :=
  persistMeta { n with inPrevote := false, term := n.term + 1, votedFor := some n.cfg.selfId
                       role := .candidate, leaderId := none, votesGranted := 1 }

/-- What `become_candidate` asks of the gate: only a node that is a quorum by itself leads at
once. -/
def CampaignOk (G : Gate) (n : Node) : Prop :=
  (campaigning n).cfg.quorum ≤ (campaigning n).votesGranted →
    G.lead (campaigning n) ∧ G.append ⟨(campaigning n).term, ClOp.noop.code, []⟩

theorem campaigning_fields (n : Node) :
    (campaigning n).cfg = n.cfg ∧ (campaigning n).votesGranted = 1 := by
  unfold campaigning persistMeta
  split
  · exact ⟨rfl, rfl⟩
  · rw [storageWriteFailed_eq]
    exact ⟨rfl, rfl⟩

theorem stages_becomeCandidate (hOk : CampaignOk Q.toGate n) (hCampaigns : Q.campaign)
    (hBallot : Q.ballot) : Stages Q n (becomeCandidate n) := by
  have hCampaign : Stages Q n (campaigning n) := by
    unfold campaigning
    have hLeft : Stages Q n { n with inPrevote := false, leaderId := none } :=
      (Stages.one (.turn .endRound rfl)).trans (.quiet rfl rfl rfl)
    exact hLeft.next (.campaign hCampaigns)
  unfold becomeCandidate
  refine hCampaign.trans ?_
  dsimp only
  split
  · rename_i hQuorum
    obtain ⟨hLead, hNoop⟩ := hOk hQuorum
    exact stages_becomeLeader hLead hNoop
  · exact stages_sendVoteRequest false (by simp) fun _ => hBallot

theorem stages_startPrevote (hOk : ∀ m, m.tracked = n.tracked → CampaignOk Q.toGate m)
    (hPoll : Q.poll) (hCampaigns : Q.campaign) (hBallot : Q.ballot) :
    Stages Q n (startPrevote n) := by
  unfold startPrevote
  extract_lets m
  have hOpen : Stages Q n m := .one (.turn (.poll (.quiet rfl) hPoll rfl) rfl)
  split
  · exact hOpen.trans (stages_becomeCandidate (hOk m rfl) hCampaigns hBallot)
  · exact hOpen.trans (stages_sendVoteRequest true (fun _ => hPoll) (by simp))

def Prevails (n : Node) (t : Nat) (granted : Bool) : Prop :=
  t ≤ n.term ∧ n.inPrevote = true ∧ granted = true ∧ n.cfg.quorum ≤ n.prevotesGranted + 1

theorem stages_onPrevoteResp (t : Nat) (granted : Bool)
    (hOk : Prevails n t granted → ∀ m, m.tracked = n.tracked → CampaignOk Q.toGate m)
    (hPoll : Q.poll) (hCampaigns : Q.campaign) (hBallot : Q.ballot) :
    Stages Q n (onPrevoteResp n t granted) := by
  unfold onPrevoteResp
  refine stages_ifCurrent fun hLe => ?_
  split
  · rename_i hCount
    extract_lets m
    have hCounted : Stages Q n m := .one (.turn (.poll (.quiet rfl) hPoll rfl) rfl)
    split
    · rename_i hQuorum
      have hGo := hOk ⟨hLe, hCount.1, hCount.2, hQuorum⟩ m rfl
      exact hCounted.trans (stages_becomeCandidate hGo hCampaigns hBallot)
    · exact hCounted
  · exact .refl

/-- The node of `CL_FRAME_VOTE_REQ` when it answers yes. -/
def voted (n : Node) (p t : Nat) : Node :=
  persistMeta { (observeTerm n t).1 with votedFor := some p }

def Grants (n : Node) (p t li lt : Nat) : Prop :=
  t = (observeTerm n t).1.term ∧ logIsCurrent (observeTerm n t).1.log li lt = true ∧
    ((observeTerm n t).1.votedFor = none ∨ (observeTerm n t).1.votedFor = some p)

theorem persistMeta_term (n : Node) : (persistMeta n).term = n.term := by
  unfold persistMeta
  split
  · rfl
  · rw [storageWriteFailed_eq]

theorem stages_onVoteReq (t li lt : Nat)
    (hGrant : Grants n p t li lt → Q.grant (voted n p t) p) (hBallot : Q.ballot) :
    Stages Q n (onVoteReq n p t li lt) := by
  unfold onVoteReq
  refine (stages_observeTerm t).trans ?_
  dsimp only
  split
  · rename_i hYes
    refine Stages.trans (.one (.vote p hYes.2.2 hBallot)) ?_
    have hTerm : (observeTerm n t).1.wireTerm = (voted n p t).wireTerm := by
      unfold Node.wireTerm voted
      rw [persistMeta_term]
    rw [hTerm]
    exact .one (.grant p (hGrant hYes) hBallot)
  · exact stages_clSend rfl

/-- The node of `CL_FRAME_VOTE_RESP` when the vote completes a quorum. -/
def counted (n : Node) : Node := { n with votesGranted := n.votesGranted + 1 }

def Elects (n : Node) (t : Nat) (granted : Bool) : Prop :=
  n.role = .candidate ∧ t = n.term ∧ granted = true ∧ n.cfg.quorum ≤ n.votesGranted + 1

theorem stages_onVoteResp (t : Nat) (granted : Bool)
    (hOk : Elects n t granted → Q.lead (counted n) ∧ Q.append ⟨n.term, ClOp.noop.code, []⟩)
    (hBallot : Q.ballot) : Stages Q n (onVoteResp n t granted) := by
  unfold onVoteResp
  refine stages_ifCurrent fun _ => ?_
  split
  · rename_i hCount
    dsimp only
    split
    · rename_i hQuorum
      have hElects : Elects n t granted := ⟨hCount.1, hCount.2.1, hCount.2.2, hQuorum⟩
      obtain ⟨hLead, hNoop⟩ := hOk hElects
      exact (Stages.one (.count hBallot)).trans (stages_becomeLeader hLead hNoop)
    · exact .one (.count hBallot)
  · exact .refl

/-! ## AppendEntries, receiving side -/

theorem stages_reject (hint : Nat) : Stages Q n (sendAppendResp n p false hint) :=
  stages_clSend rfl

/-- The answer to an APPEND: `n'` is where the turns of the handler end, up to a positive
answer on a node whose storage works. -/
def Answered (Q : StageGate) (n : Node) (p : Nat) (n' : Node) : Prop :=
  Stages Q n n' ∨
    ∃ m hint, Stages Q n m ∧ m.storageFailed = false ∧ n' = sendAppendResp m p true hint

theorem Answered.after {p : Nat} (h : Answered Q n₁ p n₂) (hStages : Stages Q n n₁) : Answered Q n p n₂ := by
  rcases h with h | ⟨m, hint, h, hOk, rfl⟩
  · exact .inl (hStages.trans h)
  · exact .inr ⟨m, hint, hStages.trans h, hOk, rfl⟩

theorem Answered.stages {p : Nat} (h : Answered Q n p n₁) (hGate : Q.ack) : Stages Q n n₁ := by
  rcases h with h | ⟨m, hint, h, hOk, rfl⟩
  · exact h
  · exact h.next (.turn (.move (.ack p hint hOk hGate) (desk_emit rfl)) (ground_emit rfl))

theorem answered_acceptAppend (prev lc ci : Nat) (es : List Entry)
    (hGate : Q.splice n.log n.fwd.ackPending prev es) :
    Answered Q n p (acceptAppend n p prev lc ci es) := by
  unfold acceptAppend
  have hStored := (Stages.one (.store (.splice prev es hGate))).next (Q := Q) (.store .flush)
  refine Answered.after ?_ hStored
  dsimp only
  generalize persistWriteFlush (es.foldl logAppend (logTruncateFrom n (prev + 1))) = m
  split
  · exact .inl (stages_reject p _)
  rename_i hOk
  have hFine : m.storageFailed = false := eq_false_of_ne_true hOk
  let m₁ : Node := { m with leaderCommitSeen := lc }
  let m₂ : Node := if m₁.log.commitIndex < min lc m₁.log.lastIndex then
      applyCommitted { m₁ with log := { m₁.log with commitIndex := min lc m₁.log.lastIndex } }
    else m₁
  have hSeen : Stages Q m m₁ := .quiet rfl rfl rfl
  have hCommit : Stages Q m m₂ ∧ m₂.storageFailed = false := by
    by_cases hNew : m₁.log.commitIndex < min lc m₁.log.lastIndex
    · simp only [m₂, if_pos hNew]
      refine ⟨hSeen.next (.turn (.advance _ hNew (.inl (min_le_right _ _)))
        applyCommitted_kept.2.2), ?_⟩
      exact (congrArg Tracked.failed applyCommitted_kept.1).trans hFine
    · simp only [m₂, if_neg hNew]
      exact ⟨hSeen, hFine⟩
  have hFreed : Stages Q m { compactPayloads m₂ ci with compactHint := ci } :=
    (hCommit.1.trans (.move (.free ci) rfl rfl)).trans (.quiet rfl rfl rfl)
  exact .inr ⟨_, m.log.lastIndex, hFreed, hCommit.2, rfl⟩

theorem answered_onAppend (t prev pt lc ci : Nat) (cong : Bool) (es : List Entry)
    (hGate : Accepts n t prev pt → Q.splice n.log n.fwd.ackPending prev es) :
    Answered Q n p (onAppend n p t prev pt lc ci cong es) := by
  unfold onAppend
  refine Answered.after ?_ (stages_observeTerm t)
  have hObs := observeTerm_fields n t
  generalize (observeTerm n t).1 = m at hObs
  dsimp only
  split
  · exact .inl (stages_reject p _)
  rename_i hTerm
  let m₁ : Node := { m with role := .follower, leaderId := some p, inPrevote := false
                            lastLeaderContact := m.now, throttle := cong }
  have hFollow : Stages Q m m₁ :=
    ((Stages.one .follow).next (.turn .endRound rfl)).trans (.quiet rfl rfl rfl)
  refine Answered.after ?_ hFollow
  split
  · exact .inl (stages_reject p _)
  rename_i hPrev
  split
  · exact .inl (stages_reject p _)
  rename_i hMatch
  refine answered_acceptAppend p prev lc ci es ?_
  have hLog : m₁.log = n.log := hObs.log
  rw [hLog] at hPrev hMatch ⊢
  rw [show m₁.fwd = n.fwd from hObs.fwd]
  refine hGate ⟨?_, Nat.le_of_not_lt hPrev, fun hPos => ?_⟩
  · have := hObs.term
    omega
  · by_contra hNe
    exact hMatch ⟨hPos, hNe⟩

/-! ## Answers, proposals and state transfer -/

theorem stages_onAppendResp (t : Nat) (success : Bool) (hint durable : Nat)
    (hOffice : n.role = .leader → Q.office n.term) :
    Stages Q n (onAppendResp n p t success hint durable) := by
  unfold onAppendResp
  refine stages_ifCurrent fun _ => ?_
  have hSet : ∀ f g, Stages Q n ((n.updPeer p f).updPeer p g) := fun _ _ =>
    .quiet rfl rfl rfl
  split
  · exact .refl
  rename_i hRole
  refine Stages.trans ?_ (stages_pumpPeer p)
  dsimp only
  split
  · exact (hSet _ _).trans (stages_advanceCommit (hOffice (not_not.mp hRole)))
  · exact hSet _ _

theorem stages_forwardOne (origin : Nat) (isLeader : Bool) (already : Nat) (pr : Proposal)
   
    (hOk : n.role = .leader → Q.push ∧ Q.append ⟨n.term, pr.op, pr.data⟩) :
    Stages Q n (forwardOne origin isLeader already n pr) := by
  unfold forwardOne
  split
  · exact .refl
  split
  · have hStages := stages_leaderAppend (Q := Q) pr.op pr.data fun hRole => (hOk hRole).2
    dsimp only
    split
    · rename_i hGrew
      have hRole : n.role = .leader := by
        by_contra hNot
        simp [leaderAppend, hNot] at hGrew
      exact hStages.trans (stages_pushFwdAck _ (hOk hRole).1)
    · exact hStages
  · exact stages_proposeInternal _ _

theorem forwardOne_fields (origin : Nat) (isLeader : Bool) (already : Nat) (pr : Proposal) :
    (forwardOne origin isLeader already n pr).role = n.role ∧
      (forwardOne origin isLeader already n pr).term = n.term := by
  unfold forwardOne leaderAppend
  split
  · exact ⟨rfl, rfl⟩
  split
  · dsimp only
    split <;> split <;> exact ⟨rfl, rfl⟩
  · exact ⟨rfl, rfl⟩

theorem stages_onForward (ops : List Proposal) (hOk : TakesOps Q.toGate n ops) :
    Stages Q n (onForward n p ops) := by
  unfold onForward
  generalize (if p < clusterMaxNodes then _ else _ : Nat) = already
  refine (Stages.foldl (P := fun m => m.role = n.role ∧ m.term = n.term) ops ?_ ⟨rfl, rfl⟩).1
  rintro m pr hMem ⟨hRole, hTerm⟩
  refine ⟨stages_forwardOne _ _ _ pr fun hLead => ?_, ?_⟩
  · obtain ⟨hPush, hAppend⟩ := hOk (hRole.symm.trans hLead)
    rw [hTerm]
    exact ⟨hPush, hAppend pr hMem⟩
  · obtain ⟨hRole', hTerm'⟩ := forwardOne_fields (n := m) p (decide (n.role = .leader)) already pr
    exact ⟨hRole'.trans hRole, hTerm'.trans hTerm⟩

theorem stages_onForwardAck (acked ackedIdx : Nat) :
    Stages Q n (onForwardAck n acked ackedIdx) := by
  let m : Node := { n with fwd := { n.fwd with
    ackedSeq := max n.fwd.ackedSeq acked
    ackedIndex := max n.fwd.ackedIndex ackedIdx
    pending := n.fwd.pending.filter (fun pr => acked < pr.seq) } }
  obtain ⟨hKept, hDesk, hGround⟩ := resolveLocalFwdAcks_kept m
  have hAcked : Stages Q n m := .quiet rfl rfl rfl
  exact hAcked.trans (.quiet hKept hDesk hGround)

def Installs (n : Node) (t base : Nat) : Prop := n.term ≤ t ∧ n.log.lastIndex < base

theorem stages_onSnapBegin (t base bt : Nat) (topo : List TopoRec)
    (hGate : Installs n t base → Q.install n.log n.fwd.ackPending base) :
    Stages Q n (onSnapBegin n p t base bt topo) := by
  unfold onSnapBegin
  split
  · exact .refl
  rename_i hTerm
  refine (stages_observeTerm t).trans ?_
  have hObs := observeTerm_fields n t
  generalize (observeTerm n t).1 = m at hObs
  let m₁ : Node := { m with role := .follower, leaderId := some p, lastLeaderContact := m.now }
  have hFollow : Stages Q m m₁ := (Stages.one .follow).trans (.quiet rfl rfl rfl)
  refine hFollow.trans ?_
  dsimp only
  split
  · exact .refl
  rename_i hNew
  refine .one (.store (.install base bt topo ?_))
  have hLog : m₁.log = n.log := hObs.log
  rw [hLog, show m₁.fwd = n.fwd from hObs.fwd]
  refine hGate ⟨Nat.le_of_not_lt hTerm, ?_⟩
  rw [← hLog]
  exact Nat.lt_of_not_le hNew

theorem stages_onSnapChunk (t : Nat) (recs : List SnapRec) :
    Stages Q n (onSnapChunk n p t recs) := by
  unfold onSnapChunk
  split
  · exact .refl
  · exact .emitted (.send p (.snapAck _ _ _)) rfl rfl rfl rfl

theorem stages_onSnapEnd (t : Nat) : Stages Q n (onSnapEnd n p t) := by
  unfold onSnapEnd
  split
  · exact .refl
  dsimp only
  refine Stages.trans ?_ (stages_clSend rfl)
  exact (Stages.one (.store (.snapshot _ _ _))).after rfl rfl rfl

theorem stages_onSnapAck (t : Nat) (final : Bool) (base : Nat) :
    Stages Q n (onSnapAck n p t final base) := by
  unfold onSnapAck
  refine stages_ifCurrent fun _ => ?_
  split
  · exact .refl
  split
  · exact (stages_updPeer p _).trans (stages_pumpPeer p)
  · exact (stages_updPeer p _).trans (pumped_stages.snapPump _ p)

/-! ## Links and timers -/

theorem stages_onHelloAck : Stages Q n (onHelloAck n p) := by
  unfold onHelloAck
  exact (stages_updPeer p _).trans (stages_peerOnLinkUp p)

theorem stages_onHello : Stages Q n (onHello n p) :=
  (stages_clSend (f := .helloAck n.wireTerm) rfl).trans (stages_onHelloAck p)

theorem stages_onConnect : Stages Q n (onConnect n p) := by
  unfold onConnect
  exact (stages_updPeer p _).trans (stages_clSend rfl)

theorem stages_dropPeerLink : Stages Q n (dropPeerLink n p) :=
  stages_updPeer p _

theorem stages_electionTimerCb
    (hOk : n.role ≠ .leader → ∀ m, m.tracked = n.tracked → CampaignOk Q.toGate m)
    (hPoll : Q.poll) (hCampaigns : Q.campaign) (hBallot : Q.ballot) :
    Stages Q n (electionTimerCb n) := by
  unfold electionTimerCb
  split
  · exact .refl
  · rename_i hRole
    exact stages_startPrevote (hOk hRole) hPoll hCampaigns hBallot

theorem stages_heartbeatTimerCb : Stages Q n (heartbeatTimerCb n) := by
  have hPeer : ∀ (last : Nat) (m : Node) (p : Nat), Stages Q m (heartbeatPeer last m p) := by
    intro last m p
    unfold heartbeatPeer
    split
    · exact .refl
    dsimp only
    split
    · exact (stages_pumpPeer p).trans (stages_sendAppend p)
    · exact stages_pumpPeer p
  have hStatus : ∀ m : Node, Stages Q m (sendStatus m) := by
    intro m
    unfold sendStatus
    split
    · exact .refl
    refine Stages.foldl_free (fun k p => ?_) _
    split
    · exact stages_clSend rfl
    · exact .refl
  unfold heartbeatTimerCb
  split
  · exact .refl
  have hPeers : Stages Q n ((leaderUpdateFlow n).cfg.peerIds.foldl
      (heartbeatPeer (leaderUpdateFlow n).log.lastIndex) (leaderUpdateFlow n)) :=
    stages_leaderUpdateFlow.trans (Stages.foldl_free (hPeer _) _)
  dsimp only
  split
  · exact hPeers.trans ((hStatus _).after rfl rfl rfl)
  · exact hPeers.trans (.quiet rfl rfl rfl)

theorem stages_resendSweep : Stages Q n (resendSweep n) := by
  unfold resendSweep
  dsimp only
  split
  · split
    · exact .quiet rfl rfl rfl
    · exact (stages_resendPending).after rfl rfl rfl
  · exact .quiet rfl rfl rfl

theorem stages_compactSweep : Stages Q n (compactSweep n) := by
  unfold compactSweep
  dsimp only
  split
  · split
    · exact .quiet rfl rfl rfl
    · exact (Stages.one (.store (.compact _))).after rfl rfl rfl
  · exact .quiet rfl rfl rfl

theorem persistSync_office (n : Node) :
    (persistSync n).term = n.term ∧ ((persistSync n).role = .leader → n.role = .leader) := by
  have hDemote : ∀ m : Node, (storageWriteFailed m).role = .leader → m.role = .leader := by
    intro m hRole
    rw [storageWriteFailed_eq] at hRole
    revert hRole
    show m.role.demote = .leader → _
    cases m.role <;> rintro ⟨⟩
  have hFlush := (flushed_persistWriteFlush n).leader
  have hTerm := (flushed_persistWriteFlush n).term
  unfold persistSync
  generalize persistWriteFlush n = m at hTerm hFlush
  dsimp only
  split
  · exact ⟨hTerm, hFlush⟩
  split
  · split
    · exact ⟨hTerm, hFlush⟩
    · refine ⟨?_, fun h => hFlush (hDemote m h)⟩
      rw [storageWriteFailed_eq]
      exact hTerm
  · exact ⟨hTerm, hFlush⟩

theorem stages_beforeCompact (hOffice : n.role = .leader → Q.office n.term) :
    Stages Q n (beforeCompact n) := by
  unfold beforeCompact
  refine Stages.trans ?_ (stages_resendSweep)
  obtain ⟨hTerm, hRole⟩ := persistSync_office n
  split
  · rename_i hLead
    refine (Stages.one (.store .sync)).trans (stages_advanceCommit ?_)
    rw [hTerm]
    exact hOffice (hRole hLead.2)
  · exact .one (.store .sync)

theorem stages_fsyncTimerCb (hOffice : n.role = .leader → Q.office n.term) :
    Stages Q n (fsyncTimerCb n) := (stages_beforeCompact hOffice).trans stages_compactSweep

/-! ## Callbacks -/

/-- What the gate is asked for a received frame, in terms of the node that receives it. -/
def FrameGate (G : Gate) (n : Node) (p : Nat) : Frame → Prop
  | .prevoteResp t g => Prevails n t g → ∀ m, m.tracked = n.tracked → CampaignOk G m
  | .voteReq t li lt => Grants n p t li lt → G.grant (voted n p t) p
  | .voteResp t g =>
    Elects n t g → G.lead (counted n) ∧ G.append ⟨n.term, ClOp.noop.code, []⟩
  | .append t prev pt _ _ _ es =>
    G.ack ∧ (Accepts n t prev pt → G.splice n.log n.fwd.ackPending prev es)
  | .forward _ ops => TakesOps G n ops
  | .snapBegin t base _ _ => Installs n t base → G.install n.log n.fwd.ackPending base
  | _ => True

def CallbackGate (G : Gate) (n : Node) : Callback → Prop
  | .electionTimeout => n.role ≠ .leader → ∀ m, m.tracked = n.tracked → CampaignOk G m
  | .drain => TakesOps G n n.fwd.inbox
  | _ => True

def TurnGate.frame (T : TurnGate) (n : Node) : Frame → Prop
  | .prevote _ _ _ => T.poll
  | .prevoteResp _ _ => T.poll ∧ T.campaign
  | .appendResp _ _ _ _ => n.role = .leader → T.office n.term
  | _ => True

def TurnGate.callback (T : TurnGate) (n : Node) : Callback → Prop
  | .electionTimeout => T.poll ∧ T.campaign
  | .fsyncTimer | .drain => n.role = .leader → T.office n.term
  | .readDone => n.logDirty = true → T.office n.term
  | _ => True

def StageGate.frame (Q : StageGate) : Frame → Prop
  | .voteReq _ _ _ | .voteResp _ _ | .prevoteResp _ _ => Q.ballot
  | _ => True

/-- What a callback without a frame asks about votes and storage. -/
def StageGate.callback (Q : StageGate) : Callback → Prop
  | .electionTimeout => Q.ballot
  | .setIo io => Q.io io
  | _ => True

theorem stages_clDispatch (f : Frame) (hGate : FrameGate Q.toGate n p f)
    (hDesk : Q.toTurnGate.frame n f) (hBallot : Q.frame f) : Stages Q n (clDispatch n p f) := by
  cases f with
  | hello t => exact stages_onHello p
  | helloAck t => exact stages_onHelloAck p
  | prevote t li lt => exact stages_sendPoll p rfl hDesk
  | prevoteResp t g => exact stages_onPrevoteResp t g hGate hDesk.1 hDesk.2 hBallot
  | voteReq t li lt => exact stages_onVoteReq p t li lt hGate hBallot
  | voteResp t g => exact stages_onVoteResp t g hGate hBallot
  | append t prev pt lc ci cong es =>
    exact (answered_onAppend p t prev pt lc ci cong es hGate.2).stages hGate.1
  | appendResp t ok hint dur => exact stages_onAppendResp p t ok hint dur hDesk
  | forward t ops => exact stages_onForward p ops hGate
  | forwardAck t seq idx => exact stages_onForwardAck seq idx
  | snapBegin t base bt topo => exact stages_onSnapBegin p t base bt topo hGate
  | snapChunk t recs => exact stages_onSnapChunk p t recs
  | snapEnd t => exact stages_onSnapEnd p t
  | snapAck t final base => exact stages_onSnapAck p t final base
  | status t => exact stages_observeTerm t

theorem stages_callback (cb : Callback) (hGate : CallbackGate Q.toGate n cb)
    (hDesk : Q.toTurnGate.callback n cb) (hVotes : Q.callback cb) : Stages Q n (cb.run n) := by
  cases cb with
  | electionTimeout => exact stages_electionTimerCb hGate hDesk.1 hDesk.2 hVotes
  | heartbeat => exact stages_heartbeatTimerCb
  | fsyncTimer => exact stages_fsyncTimerCb hDesk
  | drain => exact stages_drainInbox hGate hDesk
  | propose op data => exact stages_proposeInternal op data
  | readDone => exact stages_leaderFlush hDesk
  | connect p => exact stages_onConnect p
  | linkDown p => exact stages_dropPeerLink p
  | tick ms => exact .quiet rfl rfl rfl
  | setIo io => exact .one (.setIo io hVotes)
  | consume | ack | requeue | purge => exact .quiet rfl rfl rfl

theorem turns_clDispatch (f : Frame) (hGate : FrameGate T.toGate n p f)
    (hDesk : T.frame n f) : Turns T n (clDispatch n p f) :=
  .of (stages_clDispatch p f hGate hDesk (by cases f <;> trivial))

theorem turns_callback (cb : Callback) (hGate : CallbackGate T.toGate n cb)
    (hDesk : T.callback n cb) : Turns T n (cb.run n) :=
  .of (stages_callback cb hGate hDesk (by cases cb <;> trivial))

/-! ### The gate with nothing to ask -/

theorem frameGate_free (f : Frame) : FrameGate {} n p f := by
  cases f with
  | prevoteResp t g => exact fun _ _ _ _ => ⟨trivial, trivial⟩
  | voteReq t li lt => exact fun _ => trivial
  | voteResp t g => exact fun _ => ⟨trivial, trivial⟩
  | append t prev pt lc ci cong es => exact ⟨trivial, fun _ => trivial⟩
  | forward t ops => exact fun _ => ⟨trivial, fun _ _ => trivial⟩
  | snapBegin t base bt topo => exact fun _ => trivial
  | _ => trivial

theorem callbackGate_free (cb : Callback) : CallbackGate {} n cb := by
  cases cb with
  | electionTimeout => exact fun _ _ _ _ => ⟨trivial, trivial⟩
  | drain => exact fun _ => ⟨trivial, fun _ _ => trivial⟩
  | _ => trivial

theorem frame_free (f : Frame) : G.free.frame n f := by
  cases f with
  | prevoteResp t g => exact ⟨trivial, trivial⟩
  | appendResp t ok hint dur => exact fun _ => trivial
  | _ => trivial

theorem callback_free (cb : Callback) : G.free.callback n cb := by
  cases cb with
  | electionTimeout => exact ⟨trivial, trivial⟩
  | fsyncTimer | drain | readDone => exact fun _ => trivial
  | _ => trivial

theorem moves_clDispatch (f : Frame) (hGate : FrameGate G n p f) :
    Moves G n (clDispatch n p f) := (turns_clDispatch (T := G.free) p f hGate (frame_free f)).moves

theorem moves_callback (cb : Callback) (hGate : CallbackGate G n cb) : Moves G n (cb.run n) :=
  (turns_callback (T := G.free) cb hGate (callback_free cb)).moves

/-! ## Steps of the cluster -/

def Setup.rebooted (s : Setup) (i : Nat) (d : Disk) (old : Node) : Node :=
  { (s.boot i d).settle with io := old.io, now := old.now, history := old.history }

def Event.restarts (i : Nat) : Event → Prop
  | .step _ _ => False
  | .crashIn j _ _ _ | .crash j _ | .wipe j => j = i

/-- What a step of the cluster does to one node and its disk: nothing, a callback, or a
restart. -/
inductive NodeStep (s : Setup) (c : Cluster) (i : Nat) : Event → Node → Disk → Prop
  | same {e : Event} (hUp : ¬ e.restarts i) : NodeStep s c i e (c.node i) (c.disk i)
  | callback {inp : Input} {c₁ : Cluster} {m : Node} (hBegin : c.begin i inp = some (c₁, m)) :
      NodeStep s c i (.step i inp) m.settle ((c.disk i).applyAll m.out)
  | restart {e : Event} (d : Disk) (hDown : e.restarts i) :
      NodeStep s c i e (s.rebooted i d (c.node i)) (d.applyAll (s.boot i d).out)

theorem nodeStep_of_step {s : Setup} {c c' : Cluster} {e : Event} (hStep : c.step s e = some c')
    (i : Nat) : NodeStep s c i e (c'.node i) (c'.disk i) := by
  have hRestart : ∀ (c₁ : Cluster) (j : Nat) (d : Disk), c₁.node = c.node →
      (i ≠ j → c₁.disk i = c.disk i) → (e.restarts i ↔ j = i) →
      NodeStep s c i e ((c₁.restart s j d).node i) ((c₁.restart s j d).disk i) := by
    intro c₁ j d hNode hDisk hDown
    by_cases hEq : i = j
    · subst hEq
      simp only [Cluster.restart, Cluster.setNode, hNode, if_true]
      exact .restart d (hDown.mpr rfl)
    · simp only [Cluster.restart, Cluster.setNode, hNode, if_neg hEq, hDisk hEq]
      exact .same fun h => hEq (hDown.mp h).symm
  cases e with
  | step j inp =>
    obtain ⟨-, hStep⟩ := Option.ite_none_right_eq_some.mp hStep
    obtain ⟨⟨c₁, m⟩, hBegin, rfl⟩ := Option.map_eq_some_iff.mp hStep
    simp only [Cluster.setNode, Cluster.perform, (begin_kept hBegin).1, (begin_kept hBegin).2]
    by_cases hEq : i = j
    · subst hEq
      simp only [if_true]
      exact .callback hBegin
    · simp only [if_neg hEq]
      exact .same id
  | crashIn j inp k cut =>
    obtain ⟨-, hStep⟩ := Option.ite_none_right_eq_some.mp hStep
    obtain ⟨⟨c₁, m⟩, hBegin, rfl⟩ := Option.map_eq_some_iff.mp hStep
    refine hRestart _ j _ (begin_kept hBegin).1 (fun hEq => ?_) Iff.rfl
    simp only [Cluster.perform, if_neg hEq, (begin_kept hBegin).2]
  | crash | wipe =>
    obtain ⟨-, ⟨⟩⟩ := Option.ite_none_right_eq_some.mp hStep
    exact hRestart c _ _ rfl (fun _ => rfl) Iff.rfl

end BeaverMQ
