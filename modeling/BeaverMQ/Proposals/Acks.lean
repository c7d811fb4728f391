import BeaverMQ.Consensus.Moves

/-!
# BeaverMQ — the leader's pending acknowledgements

A leader queues an acknowledgement (log index, origin, seq) for each proposal it appends and
pops it when its commit index reaches the log index. The queue outlives the leadership, and is
not looked at when another leader replaces the tail of the log.

The run is audited: a ledger notes, for each acknowledgement, the entry in the log when it was
queued and, once it is popped, the entry the node applied at that index.
-/

namespace BeaverMQ

open List Cluster

/-! ## The audited run -/

def lastApplied (history : List (Nat × Entry)) (idx : Nat) : Option Entry :=
  (history.reverse.find? fun x => x.1 = idx).map (·.2)

/-- A popped acknowledgement with the entry appended when it was queued and the entry that
is committed at its index. -/
structure Popped where
  ack : FwdAck
  appended : Option Entry
  committed : Option Entry
  deriving DecidableEq

/-- What the audit of one node holds: the pending acknowledgements, each with the entry
appended when it was queued, and the popped ones. -/
structure Ledger where
  pending : List (FwdAck × Option Entry) := []
  settled : List Popped := []

structure Audited where
  cluster : Cluster
  ledger : Nat → Ledger := fun _ => {}

/-- The node of a callback that ended in `m`, when it has queued its acknowledgements and
popped none: `drain_inbox` before its flush, and FORWARD, which pops none. -/
def Cluster.pushPoint (c : Cluster) (i : Nat) (m : Node) : Input → Node
  | .own .drain =>
    if (c.node i).role = .leader then
      (c.node i).fwd.inbox.foldl drainOne
        { c.node i with fwd := { (c.node i).fwd with inbox := [] } }
    else c.node i
  | .frame src =>
    match c.chan src i with
    | .forward _ _ :: _ => m
    | _ => c.node i
  | _ => c.node i

/-- The acknowledgements queued between `n` and `point`, with their entries. -/
def queuedAt (n point : Node) : List (FwdAck × Option Entry) :=
  (point.fwd.ackPending.drop n.fwd.ackPending.length).map
    fun a => (a, logAt point.log a.logIndex)

/-- The ledger after a callback from `n` to `m`: what was queued is noted with its entry, and
what left the front of the queue with the entry applied at its index. -/
def Ledger.audit (L : Ledger) (n point m : Node) : Ledger :=
  let opened := L.pending ++ queuedAt n point
  let popped := opened.length - m.fwd.ackPending.length
  { pending := opened.drop popped
    settled := L.settled ++ (opened.take popped).map fun x =>
      ⟨x.1, x.2, lastApplied m.history x.1.logIndex⟩ }

/-- The ledger after a callback of node `i`. -/
def Audited.ledgerOf (a : Audited) (i : Nat) (inp : Input) : Ledger :=
  match a.cluster.begin i inp with
  | some (_, m) => (a.ledger i).audit (a.cluster.node i) (a.cluster.pushPoint i m inp) m
  | none => a.ledger i

/-- A step of the cluster with its audit; a restart empties the queue. -/
def Audited.step (s : Setup) (a : Audited) (e : Event) : Option Audited :=
  (a.cluster.step s e).map fun c =>
    { cluster := c
      ledger := fun j =>
        match e with
        | .step i inp => if j = i then a.ledgerOf i inp else a.ledger j
        | .crashIn i inp _ _ =>
          if j = i then { a.ledgerOf i inp with pending := [] } else a.ledger j
        | .crash i _ | .wipe i =>
          if j = i then { a.ledger i with pending := [] } else a.ledger j }

/-- The popped acknowledgement found the entry it was queued for. -/
def Popped.Sound (x : Popped) : Prop := ∃ e, x.appended = some e ∧ x.committed = some e

/-! ## The log and the history at one index -/

theorem lastApplied_append (history : List (Nat × Entry)) (k : Nat) (e : Entry) (idx : Nat) :
    lastApplied (history ++ [(k, e)]) idx =
      if k = idx then some e else lastApplied history idx := by
  unfold lastApplied
  rw [reverse_append]
  by_cases hk : k = idx <;> simp [hk]

theorem logAt_append {l : Log} {idx : Nat} {e : Entry} (hAt : logAt l idx = some e)
    (es : List Entry) : logAt { l with entries := l.entries ++ es } idx = some e := by
  obtain ⟨hBase, hLast⟩ := logAt_le_last hAt
  unfold logAt at hAt ⊢
  rw [if_neg (by omega)] at hAt
  rw [if_neg (show ¬ idx ≤ l.baseIndex by omega)]
  rw [getElem?_append_left (List.getElem?_eq_some_iff.mp hAt).1]
  exact hAt

theorem logAt_appended (l : Log) (e : Entry) :
    logAt { l with entries := l.entries ++ [e] } (l.lastIndex + 1) = some e := by
  unfold logAt Log.lastIndex
  dsimp only
  rw [if_neg (by omega),
    show l.baseIndex + l.entries.length + 1 - l.baseIndex - 1 = l.entries.length by omega]
  simp

theorem logAt_rebase {l : Log} {upto idx : Nat} (hNew : l.baseIndex < upto) (hIdx : upto < idx) :
    logAt (rebaseLog l upto) idx = logAt l idx := by
  unfold logAt rebaseLog
  dsimp only
  rw [if_neg (by omega), if_neg (by omega), getElem?_drop]
  congr 1
  omega

/-- `e` is what the node has at `idx`: applied there last or, above the applied index, in the
log. -/
def Holds (n : Node) (idx : Nat) (e : Entry) : Prop :=
  if idx ≤ n.log.appliedIndex then lastApplied n.history idx = some e
  else logAt n.log idx = some e

theorem holds_of_applied {n : Node} {idx : Nat} (hLe : idx ≤ n.log.appliedIndex) (e : Entry) :
    Holds n idx e ↔ lastApplied n.history idx = some e := by
  unfold Holds
  rw [if_pos hLe]

theorem holds_of_pending {n : Node} {idx : Nat} (hLt : n.log.appliedIndex < idx) (e : Entry) :
    Holds n idx e ↔ logAt n.log idx = some e := by
  unfold Holds
  rw [if_neg (Nat.not_le_of_lt hLt)]

/-! ## The audited queue under moves -/

/-- The queue of a node, audited: the node holds the entry of each pending acknowledgement,
and the entry of each popped one was applied. -/
structure Queued (n : Node) (pending done : List (FwdAck × Option Entry)) : Prop where
  acks : pending.map Prod.fst = n.fwd.ackPending
  held : ∀ x ∈ pending, ∃ e, x.2 = some e ∧ Holds n x.1.logIndex e
  done : ∀ x ∈ done, x.1.logIndex ≤ n.log.appliedIndex ∧
    ∃ e, x.2 = some e ∧ lastApplied n.history x.1.logIndex = some e

/-- Replacing a tail leaves alone what is pending and not applied; a boundary is installed
only over applied entries; nothing is queued. -/
def ackGate : Gate where
  push := False
  splice := fun l acks prev es => ∀ a ∈ acks, l.appliedIndex < a.logIndex →
    logAt (spliceLog l prev es) a.logIndex = logAt l a.logIndex
  install := fun l acks base => l.appliedIndex ≤ base ∧ ∀ a ∈ acks, a.logIndex ≤ l.appliedIndex

variable {n n' : Node} {pending done : List (FwdAck × Option Entry)}

section

variable (h : Queued n pending done)
include h

theorem Queued.of_log
    (hAcks : n'.fwd.ackPending = n.fwd.ackPending) (hHistory : n'.history = n.history)
    (hApplied : n'.log.appliedIndex = n.log.appliedIndex)
    (hLog : ∀ a ∈ n.fwd.ackPending, n.log.appliedIndex < a.logIndex →
      ∀ e, logAt n.log a.logIndex = some e → logAt n'.log a.logIndex = some e) :
    Queued n' pending done := by
  refine ⟨h.acks.trans hAcks.symm, ?_, ?_⟩
  · intro x hx
    obtain ⟨e, hEntry, hHolds⟩ := h.held x hx
    refine ⟨e, hEntry, ?_⟩
    by_cases hLe : x.1.logIndex ≤ n.log.appliedIndex
    · rw [holds_of_applied hLe] at hHolds
      rw [holds_of_applied (by rw [hApplied]; exact hLe), hHistory]
      exact hHolds
    have hLt := Nat.lt_of_not_le hLe
    rw [holds_of_pending hLt] at hHolds
    rw [holds_of_pending (by rw [hApplied]; exact hLt)]
    refine hLog x.1 ?_ hLt e hHolds
    rw [← h.acks]
    exact mem_map_of_mem hx
  · rw [hApplied, hHistory]
    exact h.done

theorem Queued.same (hAcks : n'.fwd.ackPending = n.fwd.ackPending)
    (hHistory : n'.history = n.history) (hLog : n'.log = n.log) : Queued n' pending done :=
  h.of_log hAcks hHistory (by rw [hLog]) fun _ _ _ _ hAt => by rwa [hLog]

theorem Queued.apply (hAcks : n'.fwd.ackPending = n.fwd.ackPending)
    (hLog : n'.log = { n.log with appliedIndex := n.log.appliedIndex + 1 })
    (hHistory : n'.history = n.history ++ ((logAt n.log (n.log.appliedIndex + 1)).map
      fun e => (n.log.appliedIndex + 1, e)).toList) : Queued n' pending done := by
  -- other indexes keep what was applied last there
  have hOld : ∀ idx, idx ≠ n.log.appliedIndex + 1 →
      lastApplied n'.history idx = lastApplied n.history idx := by
    intro idx hNe
    rw [hHistory]
    cases logAt n.log (n.log.appliedIndex + 1) with
    | none => simp
    | some e => simp [lastApplied_append, hNe.symm]
  refine ⟨h.acks.trans hAcks.symm, ?_, ?_⟩
  · intro x hx
    obtain ⟨e, hEntry, hHolds⟩ := h.held x hx
    refine ⟨e, hEntry, ?_⟩
    have hApplied : n'.log.appliedIndex = n.log.appliedIndex + 1 := by rw [hLog]
    by_cases hNext : x.1.logIndex = n.log.appliedIndex + 1
    · rw [holds_of_pending (by omega), hNext] at hHolds
      rw [holds_of_applied (by omega), hNext, hHistory, hHolds]
      simp [lastApplied_append]
    by_cases hLe : x.1.logIndex ≤ n.log.appliedIndex
    · rw [holds_of_applied hLe] at hHolds
      rw [holds_of_applied (by omega), hOld _ hNext]
      exact hHolds
    rw [holds_of_pending (by omega)] at hHolds
    rw [holds_of_pending (by omega), hLog]
    exact hHolds
  · intro x hx
    obtain ⟨hLe, e, hEntry, hLast⟩ := h.done x hx
    rw [hLog]
    refine ⟨Nat.le_succ_of_le hLe, e, hEntry, ?_⟩
    rw [hOld _ (by omega)]
    exact hLast

theorem Queued.install {base bt : Nat} (hApplied : n.log.appliedIndex ≤ base)
    (hAll : ∀ a ∈ n.fwd.ackPending, a.logIndex ≤ n.log.appliedIndex) :
    Queued { n with log := installLog base bt } pending done := by
  refine ⟨h.acks, ?_, ?_⟩
  · intro x hx
    obtain ⟨e, hEntry, hHolds⟩ := h.held x hx
    have hLe : x.1.logIndex ≤ n.log.appliedIndex := by
      refine hAll x.1 ?_
      rw [← h.acks]
      exact mem_map_of_mem hx
    rw [holds_of_applied hLe] at hHolds
    exact ⟨e, hEntry, (holds_of_applied (n := { n with log := installLog base bt })
      (hLe.trans hApplied) e).mpr hHolds⟩
  · intro x hx
    obtain ⟨hLe, hRest⟩ := h.done x hx
    exact ⟨hLe.trans hApplied, hRest⟩

theorem Queued.pop {f : Forwarding} {k : Nat} (hAcks : f.ackPending = n.fwd.ackPending.drop k)
    (hApplied : ∀ a ∈ n.fwd.ackPending.take k, a.logIndex ≤ n.log.appliedIndex) :
    Queued { n with fwd := f } (pending.drop k) (done ++ pending.take k) := by
  refine ⟨?_, ?_, ?_⟩
  · rw [map_drop, h.acks]
    exact hAcks.symm
  · exact fun x hx => h.held x (mem_of_mem_drop hx)
  · intro x hx
    rcases mem_append.mp hx with hx | hx
    · exact h.done x hx
    have hLe : x.1.logIndex ≤ n.log.appliedIndex := by
      refine hApplied x.1 ?_
      rw [← h.acks, ← map_take]
      exact mem_map_of_mem hx
    obtain ⟨e, hEntry, hHolds⟩ := h.held x (mem_of_mem_take hx)
    exact ⟨hLe, e, hEntry, (holds_of_applied hLe e).mp hHolds⟩

theorem queued_move (hMove : Move ackGate n n') :
    ∃ k, k ≤ pending.length ∧ Queued n' (pending.drop k) (done ++ pending.take k) := by
  have hStay : Queued n' pending done →
      ∃ k, k ≤ pending.length ∧ Queued n' (pending.drop k) (done ++ pending.take k) :=
    fun hSame => ⟨0, Nat.zero_le _, by simpa using hSame⟩
  cases hMove with
  | quiet hKept =>
    exact hStay (h.same (congrArg Tracked.acks hKept) (congrArg Tracked.history hKept)
      (congrArg Tracked.log hKept))
  | fail =>
    refine hStay (h.same ?_ ?_ ?_) <;> rw [storageWriteFailed_eq]
  | push a hGate => exact absurd hGate id
  | pop f k hAcks hApplied =>
    by_cases hk : k ≤ pending.length
    · exact ⟨k, hk, h.pop hAcks hApplied⟩
    -- more than everything is everything
    refine ⟨pending.length, Nat.le_refl _, ?_⟩
    have hPop := h.pop hAcks hApplied
    rw [drop_of_length_le (by omega), take_of_length_le (by omega)] at hPop
    rw [drop_length, take_length]
    exact hPop
  | append e hRole hTerm hGate =>
    exact hStay (h.of_log rfl rfl rfl fun _ _ _ _ hAt => logAt_append hAt [e])
  | splice prev es hGate =>
    refine hStay (h.of_log rfl rfl rfl fun a ha hLt e hAt => ?_)
    exact (hGate a ha hLt).trans hAt
  | install base bt hGate => exact hStay (h.install hGate.1 hGate.2)
  | rebase upto hNew hApplied =>
    refine hStay (h.of_log rfl rfl rfl fun a ha hLt e hAt => ?_)
    exact (logAt_rebase hNew (by omega)).trans hAt
  | apply hNew => exact hStay (h.apply rfl rfl rfl)
  | sync | commit | free => exact hStay (h.of_log rfl rfl rfl fun _ _ _ _ hAt => hAt)
  | _ => exact hStay (h.same rfl rfl rfl)

theorem queued_moves (hMoves : Moves ackGate n n') :
    ∃ k, k ≤ pending.length ∧ Queued n' (pending.drop k) (done ++ pending.take k) := by
  induction hMoves with
  | refl => exact ⟨0, Nat.zero_le _, by simpa using h⟩
  | next _ hMove ih =>
    obtain ⟨k, hk, hQueued⟩ := ih
    obtain ⟨j, hj, hNext⟩ := queued_move hQueued hMove
    rw [length_drop] at hj
    refine ⟨k + j, by omega, ?_⟩
    rw [drop_drop, append_assoc] at hNext
    rw [take_add]
    exact hNext

end

/-! ## Queueing -/

def takeOp (n : Node) (origin : Nat) (pr : Proposal) : Node :=
  let m := leaderAppend n pr.op pr.data
  { m with fwd := pushFwdAckPending m.fwd ⟨m.log.lastIndex, origin, pr.seq⟩ }

theorem drainOne_of_leader (hRole : n.role = .leader) (pr : Proposal) :
    drainOne n pr = takeOp n n.cfg.selfId pr := by
  unfold drainOne takeOp leaderAppend
  rw [if_pos hRole, if_pos hRole]
  rfl

theorem forwardOne_of_leader (hRole : n.role = .leader) (origin already : Nat) (pr : Proposal) :
    forwardOne origin true already n pr =
      if pr.seq ≠ 0 ∧ pr.seq ≤ already then n else takeOp n origin pr := by
  have hGrown : n.log.lastIndex < (leaderAppend n pr.op pr.data).log.lastIndex := by
    unfold leaderAppend
    rw [if_pos hRole]
    simp [logAppend, Log.lastIndex]
  unfold forwardOne takeOp
  split
  · rfl
  rw [if_pos rfl]
  dsimp only
  rw [if_pos hGrown]

/-- The state of a queueing loop: what was queued so far is noted with the entry in the log,
and the log is not behind what is applied. -/
structure Queueing (n : Node) (pending new : List (FwdAck × Option Entry)) : Prop where
  queued : Queued n (pending ++ new) []
  entries : ∀ x ∈ new, logAt n.log x.1.logIndex = x.2
  role : n.role = .leader
  applied : n.log.appliedIndex ≤ n.log.lastIndex

variable {new : List (FwdAck × Option Entry)}

theorem Queueing.append (h : Queueing n pending new) (n' : Node) (e : Entry)
    (hAcks : n'.fwd.ackPending = n.fwd.ackPending) (hHistory : n'.history = n.history)
    (hRole : n'.role = n.role) (hLog : n'.log = { n.log with entries := n.log.entries ++ [e] }) :
    Queueing n' pending new ∧ logAt n'.log n'.log.lastIndex = some e ∧
      n'.log.appliedIndex < n'.log.lastIndex := by
  have hLast : n'.log.lastIndex = n.log.lastIndex + 1 := by
    rw [hLog]
    simp [Log.lastIndex, Nat.add_assoc]
  have hApplied : n'.log.appliedIndex = n.log.appliedIndex := by rw [hLog]
  have hLt : n'.log.appliedIndex < n'.log.lastIndex := by
    have := h.applied
    omega
  refine ⟨⟨?_, ?_, hRole.trans h.role, hLt.le⟩, ?_, hLt⟩
  · refine h.queued.of_log hAcks hHistory hApplied fun a _ _ e' hAt => ?_
    rw [hLog]
    exact logAt_append hAt [e]
  · intro x hx
    obtain ⟨e', hEntry, -⟩ := h.queued.held x (mem_append_right _ hx)
    rw [hEntry, hLog]
    exact logAt_append ((h.entries x hx).trans hEntry) [e]
  · rw [hLast, hLog]
    exact logAt_appended n.log e

theorem Queueing.push (h : Queueing n pending new) {a : FwdAck} {e : Entry}
    (hAt : logAt n.log a.logIndex = some e) (hNew : n.log.appliedIndex < a.logIndex) :
    Queueing { n with fwd := { n.fwd with ackPending := n.fwd.ackPending ++ [a] } } pending
      (new ++ [(a, some e)]) := by
  refine ⟨⟨?_, ?_, by simp⟩, ?_, h.role, h.applied⟩
  · rw [← append_assoc, map_append, h.queued.acks]
    rfl
  · rw [← append_assoc]
    intro x hx
    rcases mem_append.mp hx with hx | hx
    · exact h.queued.held x hx
    · rw [mem_singleton.mp hx]
      exact ⟨e, rfl, (holds_of_pending hNew e).mpr hAt⟩
  · intro x hx
    rcases mem_append.mp hx with hx | hx
    · exact h.entries x hx
    · rw [mem_singleton.mp hx]
      exact hAt

theorem queueing_takeOp (h : Queueing n pending new) (origin : Nat) (pr : Proposal) :
    ∃ more, Queueing (takeOp n origin pr) pending more := by
  have hAppend : leaderAppend n pr.op pr.data =
      { logAppend n ⟨n.term, pr.op, pr.data⟩ with logDirty := true } := by
    unfold leaderAppend
    rw [if_pos h.role]
  obtain ⟨hNext, hAt, hLt⟩ := h.append (leaderAppend n pr.op pr.data) ⟨n.term, pr.op, pr.data⟩
    (by rw [hAppend]; rfl) (by rw [hAppend]; rfl) (by rw [hAppend]; rfl) (by rw [hAppend]; rfl)
  unfold takeOp pushFwdAckPending
  dsimp only
  -- an op without a seq is appended and not acknowledged
  by_cases hSeq : pr.seq = 0
  · rw [if_pos hSeq]
    exact ⟨new, hNext⟩
  · rw [if_neg hSeq]
    exact ⟨_, hNext.push (a := ⟨_, origin, pr.seq⟩) hAt hLt⟩

theorem queueing_foldl {f : Node → Proposal → Node} {ops : List Proposal}
    (h : Queueing n pending new)
    (hStep : ∀ m pr, m.role = .leader → f m pr = m ∨ ∃ origin, f m pr = takeOp m origin pr) :
    ∃ more, Queueing (ops.foldl f n) pending more := by
  induction ops generalizing n new with
  | nil => exact ⟨new, h⟩
  | cons pr ops ih =>
    rw [foldl_cons]
    rcases hStep n pr h.role with hSame | ⟨origin, hTake⟩
    · rw [hSame]
      exact ih h
    obtain ⟨more, hNext⟩ := queueing_takeOp h origin pr
    rw [hTake]
    exact ih hNext

theorem Queueing.queuedAt_eq (h : Queueing n' pending new)
    (hLen : pending.length = n.fwd.ackPending.length) : queuedAt n n' = new := by
  unfold queuedAt
  rw [← h.queued.acks, ← hLen, map_append, drop_left' (by simp), map_map]
  conv_rhs => rw [← map_id new]
  refine map_congr_left fun x hx => ?_
  exact Prod.ext rfl (h.entries x hx)

/-! ## The audit of a callback -/

/-- A node and its ledger: every pending acknowledgement is held, every popped one is sound. -/
structure AuditOk (n : Node) (L : Ledger) : Prop where
  queued : Queued n L.pending []
  settled : ∀ x ∈ L.settled, x.Sound

variable {L : Ledger} {point m : Node}

theorem audit_moves (h : AuditOk n L) (hPoint : Queued point (L.pending ++ queuedAt n point) [])
    (hMoves : Moves ackGate point m) : AuditOk m (L.audit n point m) := by
  obtain ⟨k, hk, hEnd⟩ := queued_moves hPoint hMoves
  generalize hOpened : L.pending ++ queuedAt n point = opened at hk hEnd
  -- the audit counts what was popped by the length of the queue
  have hCount : opened.length - m.fwd.ackPending.length = k := by
    rw [← hEnd.acks, length_map, length_drop]
    omega
  unfold Ledger.audit
  rw [hOpened]
  dsimp only
  rw [hCount]
  refine ⟨⟨hEnd.acks, hEnd.held, by simp⟩, ?_⟩
  intro x hx
  rcases mem_append.mp hx with hx | hx
  · exact h.settled x hx
  obtain ⟨y, hy, rfl⟩ := mem_map.mp hx
  obtain ⟨-, e, hEntry, hLast⟩ := hEnd.done y (mem_append_right _ hy)
  exact ⟨e, hEntry, hLast⟩

theorem queuedAt_eq_nil (hLen : m.fwd.ackPending.length ≤ n.fwd.ackPending.length) :
    queuedAt n m = [] := by
  unfold queuedAt
  rw [drop_of_length_le hLen, map_nil]

theorem audit_plain (h : AuditOk n L) (hMoves : Moves ackGate n m)
    (hPoint : point = n ∨ point = m) : AuditOk m (L.audit n point m) := by
  obtain ⟨k, -, hEnd⟩ := queued_moves h.queued hMoves
  have hLen : m.fwd.ackPending.length ≤ n.fwd.ackPending.length := by
    rw [← hEnd.acks, ← h.queued.acks, length_map, length_map, length_drop]
    omega
  have hNone : queuedAt n point = queuedAt n n := by
    rw [queuedAt_eq_nil (Nat.le_refl _)]
    rcases hPoint with rfl | rfl
    · exact queuedAt_eq_nil (Nat.le_refl _)
    · exact queuedAt_eq_nil hLen
  have hSame : Queued n (L.pending ++ queuedAt n n) [] := by
    rw [queuedAt_eq_nil (Nat.le_refl _), append_nil]
    exact h.queued
  have hAudit := audit_moves h hSame hMoves
  unfold Ledger.audit at hAudit ⊢
  rw [hNone]
  exact hAudit

theorem audit_loop (h : AuditOk n L) (hRole : n.role = .leader)
    (hApplied : n.log.appliedIndex ≤ n.log.lastIndex) {f : Node → Proposal → Node}
    {ops : List Proposal} {start : Node} (hStart : start.tracked = n.tracked)
    (hStep : ∀ m pr, m.role = .leader → f m pr = m ∨ ∃ origin, f m pr = takeOp m origin pr)
    (hMoves : Moves ackGate (ops.foldl f start) m) :
    AuditOk m (L.audit n (ops.foldl f start) m) := by
  have hLog : start.log = n.log := congrArg Tracked.log hStart
  have hQueued : Queued start L.pending [] :=
    h.queued.same (congrArg Tracked.acks hStart) (congrArg Tracked.history hStart) hLog
  have hFirst : Queueing start L.pending [] := by
    refine ⟨by rwa [append_nil], by simp, ?_, by rw [hLog]; exact hApplied⟩
    exact (congrArg Tracked.role hStart).trans hRole
  obtain ⟨new, hEnd⟩ : ∃ more, Queueing (ops.foldl f start) L.pending more :=
    queueing_foldl hFirst hStep
  have hNew := hEnd.queuedAt_eq (n := n) (by rw [← h.queued.acks, length_map])
  refine audit_moves h ?_ hMoves
  rw [hNew]
  exact hEnd.queued

/-! ## The condition -/

/-- A frame keeps what is pending: an accepted APPEND leaves the entries of pending
acknowledgements in place until they are applied, a snapshot is installed only when nothing
pending is unapplied, and a leader that appends forwarded ops has a log that reaches what it
applied. -/
def FrameKeeps (n : Node) : Frame → Prop
  | .append t prev pt _ _ _ es =>
    Accepts n t prev pt → ∀ a ∈ n.fwd.ackPending, n.log.appliedIndex < a.logIndex →
      logAt (spliceLog n.log prev es) a.logIndex = logAt n.log a.logIndex
  | .snapBegin t base _ _ =>
    Installs n t base →
      n.log.appliedIndex ≤ base ∧ ∀ a ∈ n.fwd.ackPending, a.logIndex ≤ n.log.appliedIndex
  | .forward _ _ => n.role = .leader → n.log.appliedIndex ≤ n.log.lastIndex
  | _ => True

def InputKeeps (c : Cluster) (i : Nat) : Input → Prop
  | .own .drain =>
    (c.node i).role = .leader → (c.node i).log.appliedIndex ≤ (c.node i).log.lastIndex
  | .own _ => True
  | .frame src =>
    match c.chan src i with
    | [] => True
    | f :: _ => ((c.node i).peer src).linkState = .up → FrameKeeps (c.node i) f
  | .accept _ => True

def AcksKept (c : Cluster) : Event → Prop
  | .step i inp | .crashIn i inp _ _ => InputKeeps c i inp
  | .crash _ _ | .wipe _ => True

instance (n : Node) (t base : Nat) : Decidable (Installs n t base) :=
  inferInstanceAs (Decidable (_ ∧ _))

instance (n : Node) (f : Frame) : Decidable (FrameKeeps n f) := by
  cases f <;> unfold FrameKeeps <;> infer_instance

instance (c : Cluster) (i : Nat) (inp : Input) : Decidable (InputKeeps c i inp) := by
  unfold InputKeeps
  split
  · infer_instance
  · infer_instance
  · split <;> infer_instance
  · infer_instance

instance (c : Cluster) : (e : Event) → Decidable (AcksKept c e)
  | .step i inp | .crashIn i inp _ _ => inferInstanceAs (Decidable (InputKeeps c i inp))
  | .crash _ _ | .wipe _ => inferInstanceAs (Decidable True)

/-! ## A callback under the condition -/

theorem campaignOk_ackGate (n : Node) : CampaignOk ackGate n := fun _ => ⟨trivial, trivial⟩

theorem frameGate_of_keeps {p : Nat} {f : Frame} (hKeeps : FrameKeeps n f)
    (hOps : ∀ t ops, f = .forward t ops → n.role ≠ .leader) : FrameGate ackGate n p f := by
  cases f with
  | prevoteResp t g => exact fun _ m _ => campaignOk_ackGate m
  | voteReq t li lt => exact fun _ => trivial
  | voteResp t g => exact fun _ => ⟨trivial, trivial⟩
  | append t prev pt lc ci cong es => exact ⟨trivial, hKeeps⟩
  | forward t ops => exact fun hRole => absurd hRole (hOps t ops rfl)
  | snapBegin t base bt topo => exact hKeeps
  | _ => trivial

theorem audit_clDispatch (h : AuditOk n L) {p : Nat} {f : Frame} (hKeeps : FrameKeeps n f)
    (hPoint : point = n ∨ point = clDispatch n p f)
    (hForward : ∀ t ops, f = .forward t ops → n.role = .leader → point = clDispatch n p f) :
    AuditOk (clDispatch n p f) (L.audit n point (clDispatch n p f)) := by
  by_cases hOps : ∀ t ops, f = .forward t ops → n.role ≠ .leader
  · exact audit_plain h (moves_clDispatch p f (frameGate_of_keeps hKeeps hOps)) hPoint
  push Not at hOps
  obtain ⟨t, ops, rfl, hRole⟩ := hOps
  rw [hForward t ops rfl hRole]
  show AuditOk (onForward n p ops) (L.audit n (onForward n p ops) (onForward n p ops))
  unfold onForward
  dsimp only
  generalize (if p < clusterMaxNodes then _ else _ : Nat) = already
  refine audit_loop h hRole (hKeeps hRole) rfl ?_ .refl
  intro m pr hLead
  rw [decide_eq_true hRole, forwardOne_of_leader hLead]
  split
  · exact .inl rfl
  · exact .inr ⟨p, rfl⟩

theorem audit_callback {c : Cluster} {i : Nat} (h : AuditOk (c.node i) L) (cb : Callback)
    (hKeeps : InputKeeps c i (.own cb)) :
    AuditOk (cb.run (c.node i))
      (L.audit (c.node i) (c.pushPoint i (cb.run (c.node i)) (.own cb)) (cb.run (c.node i))) := by
  have hPlain : CallbackGate ackGate (c.node i) cb →
      c.pushPoint i (cb.run (c.node i)) (.own cb) = c.node i → AuditOk (cb.run (c.node i))
      (L.audit (c.node i) (c.pushPoint i (cb.run (c.node i)) (.own cb)) (cb.run (c.node i))) :=
    fun hGate hPoint => audit_plain h (moves_callback cb hGate) (.inl hPoint)
  cases cb with
  | drain =>
    by_cases hRole : (c.node i).role = .leader
    · have hRun : Callback.drain.run (c.node i) =
          leaderFlush ((c.node i).fwd.inbox.foldl drainOne
            { c.node i with fwd := { (c.node i).fwd with inbox := [] } }) := by
        show drainInbox (c.node i) = _
        unfold drainInbox
        dsimp only
        rw [if_neg (not_not.mpr hRole)]
      rw [hRun]
      unfold pushPoint
      dsimp only
      rw [if_pos hRole]
      refine audit_loop h hRole (hKeeps hRole) rfl ?_
        (stages_leaderFlush (Q := ackGate.free.open) fun _ => trivial).turns.moves
      exact fun m pr hLead => .inr ⟨_, drainOne_of_leader hLead pr⟩
    · refine hPlain (fun hLead => absurd hLead hRole) ?_
      unfold pushPoint
      dsimp only
      rw [if_neg hRole]
  | electionTimeout => exact hPlain (fun _ m _ => campaignOk_ackGate m) rfl
  | _ => exact hPlain trivial rfl

theorem pushPoint_frame (c : Cluster) (i : Nat) (m : Node) {inp : Input} {src : Nat}
    (hFrom : inp = .frame src ∨ inp = .accept src) :
    c.pushPoint i m inp = c.node i ∨ c.pushPoint i m inp = m := by
  rcases hFrom with rfl | rfl
  · unfold pushPoint
    dsimp only
    split
    · exact .inr rfl
    · exact .inl rfl
  · exact .inl rfl

theorem audit_begin {c c₁ : Cluster} {i : Nat} {inp : Input} (h : AuditOk (c.node i) L)
    (hBegin : c.begin i inp = some (c₁, m)) (hKeeps : InputKeeps c i inp) :
    AuditOk m (L.audit (c.node i) (c.pushPoint i m inp) m) := by
  cases begins hBegin with
  | own => exact audit_callback h _ hKeeps
  | lost hFrom => exact audit_plain h .refl (pushPoint_frame c i _ hFrom)
  | dropped hFrom => exact audit_plain h (.quiet rfl) (pushPoint_frame c i _ hFrom)
  | @dispatched inp src f _ _ hFrom _ _ hTaken =>
    have hPoint := pushPoint_frame c i (clDispatch (c.node i) src f) hFrom
    cases hTaken with
    | shake hShake =>
      refine audit_clDispatch h (by cases f <;> trivial) hPoint ?_
      rintro t ops rfl
      cases hShake
    | next hChan hUp =>
      simp only [InputKeeps, hChan] at hKeeps
      refine audit_clDispatch h (hKeeps hUp) hPoint ?_
      rintro t ops rfl -
      simp only [pushPoint, hChan]

/-! ## Runs -/

theorem auditOk_rebooted (s : Setup) (i : Nat) (d : Disk) (old : Node)
    (hSettled : ∀ x ∈ L.settled, x.Sound) :
    AuditOk (s.rebooted i d old) { L with pending := [] } := by
  have hAcks : (s.boot i d).fwd.ackPending = [] := by
    unfold Setup.boot persistLoad
    cases d.snap <;> rfl
  exact ⟨⟨hAcks.symm, by simp, by simp⟩, hSettled⟩

theorem audit_step {s : Setup} {a a' : Audited} {e : Event}
    (hOk : ∀ i, AuditOk (a.cluster.node i) (a.ledger i)) (hStep : a.step s e = some a')
    (hKept : AcksKept a.cluster e) (i : Nat) : AuditOk (a'.cluster.node i) (a'.ledger i) := by
  obtain ⟨c', hCluster, rfl⟩ := Option.map_eq_some_iff.mp hStep
  cases e with
  | step j inp =>
    obtain ⟨-, hCluster⟩ := Option.ite_none_right_eq_some.mp hCluster
    obtain ⟨⟨c₁, m⟩, hBegin, rfl⟩ := Option.map_eq_some_iff.mp hCluster
    simp only [setNode, perform, begin_node hBegin]
    split
    · rename_i hEq
      subst hEq
      simp only [Audited.ledgerOf, hBegin]
      have hAudit := audit_begin (hOk i) hBegin hKept
      exact ⟨hAudit.queued.same rfl rfl rfl, hAudit.settled⟩
    · exact hOk i
  | crashIn j inp k cut =>
    obtain ⟨-, hCluster⟩ := Option.ite_none_right_eq_some.mp hCluster
    obtain ⟨⟨c₁, m⟩, hBegin, rfl⟩ := Option.map_eq_some_iff.mp hCluster
    simp only [restart, setNode, perform, begin_node hBegin]
    split
    · rename_i hEq
      subst hEq
      simp only [Audited.ledgerOf, hBegin]
      exact auditOk_rebooted s i _ _ (audit_begin (hOk i) hBegin hKept).settled
    · exact hOk i
  | crash | wipe =>
    obtain ⟨-, ⟨⟩⟩ := Option.ite_none_right_eq_some.mp hCluster
    simp only [restart, setNode]
    split
    · rename_i hEq
      subst hEq
      exact auditOk_rebooted s i _ _ (hOk i).settled
    · exact hOk i

/-- In every run of events that keep what is pending, each popped acknowledgement found, at
its index, the entry that was appended when it was queued; and each node's queue is the
pending part of its ledger, so no acknowledgement is popped without being noted. -/
theorem acks_run {s : Setup} {a : Audited}
    (hReach : Run.Reach (Audited.step s) (fun a e _ => AcksKept a.cluster e)
      { cluster := s.init } a) (i : Nat) :
    (a.ledger i).pending.map Prod.fst = (a.cluster.node i).fwd.ackPending ∧
      ∀ x ∈ (a.ledger i).settled, x.Sound := by
  have hAll : ∀ i, AuditOk (a.cluster.node i) (a.ledger i) := by
    refine Run.Reach.invariant (P := fun a => ∀ i, AuditOk (a.cluster.node i) (a.ledger i))
      ?_ ?_ hReach
    · exact fun _ _ _ hOk hStep hKept => audit_step hOk hStep hKept
    · exact fun i => auditOk_rebooted s i {} (s.boot i {}) (L := {}) (by simp)
  exact ⟨(hAll i).queued.acks, (hAll i).settled⟩

/-- Three nodes whose acknowledgements do not wait for an fsync of a quorum. -/
def ackSetup : Setup := { nnodes := 3, durableCommit := false }

/-- Node 0 is elected, appends a proposal and acknowledges it when node 1 has it. -/
theorem acks_run_committed : ∃ a, Run.Reach (Audited.step ackSetup)
      (fun a e _ => AcksKept a.cluster e) { cluster := ackSetup.init } a ∧
      (a.ledger 0).settled ≠ [] ∧
      ((a.ledger 0).pending.map Prod.fst = (a.cluster.node 0).fwd.ackPending ∧
        ∀ x ∈ (a.ledger 0).settled, x.Sound) := by
  obtain ⟨a, hReach, hEnd⟩ : ∃ a, Run.Reach (Audited.step ackSetup)
      (fun a e _ => AcksKept a.cluster e) { cluster := ackSetup.init } a ∧
      (a.ledger 0).settled ≠ [] :=
    Run.exists_reach (Event.link 0 1 ++ Event.elect 0 1 ++ [.own 0 (.propose 1 [5]), .own 0 .drain
      , .deliver 0 1, .deliver 1 0, .deliver 0 1, .deliver 1 0]) (by decide +kernel)
  exact ⟨a, hReach, hEnd, acks_run hReach 0⟩

/-- Node 0 leads term 1 and appends its first proposal, ADD_VHOST of "/", while it is cut off.
Node 1 leads term 2 with node 2, commits another entry at the same index and replaces the
tail of node 0, which is then elected again. The acknowledgement is still in its queue: it
is popped, and the proposal counts as committed. -/
def replacingRun : List Event :=
  Event.link 0 1 ++ Event.link 1 2 ++ Event.elect 0 1 ++
    [.own 0 (.linkDown 1), .own 1 (.linkDown 0), .own 0 .drain, .own 1 (.propose 1 [5])] ++
  Event.elect 1 2 ++
    [.own 1 .drain, .deliver 1 2, .deliver 2 1, .deliver 1 2, .deliver 2 1] ++
  Event.link 0 1 ++ [.own 1 .heartbeat] ++
    [.deliver 1 0, .deliver 0 1, .deliver 1 0, .deliver 0 1, .deliver 1 0, .deliver 0 1
    , .deliver 1 0, .deliver 0 1] ++
  Event.link 0 2 ++ Event.elect 0 2 ++ [.deliver 0 2, .deliver 2 0]

theorem acks_replaced : ∃ a,
      Run.runList (Audited.step ackSetup) { cluster := ackSetup.init } replacingRun = some a ∧
      (a.ledger 0).settled =
        [⟨⟨2, 0, 1⟩, some ⟨1, ClOp.addVhost.code, [0, 1, 47]⟩, some ⟨2, 1, [5]⟩⟩] ∧
      clusterProposalStatus (a.cluster.node 0) 1 = .committed :=
  Run.exists_of_runList (by decide +kernel)

/-! # The status ring

`resolve_local_fwd_acks` marks no more seqs than the ring has slots. The seqs it passes over are
read as PENDING either way: a later seq of the same burst took their slot. -/

/-- Slot `i` of the status ring reads the same. -/
def SameSlot (i : Nat) (f g : Forwarding) : Prop :=
  f.statusSeq i = g.statusSeq i ∧ f.statusVal i = g.statusVal i

variable {i : Nat} {f g : Forwarding}

theorem SameSlot.mark (h : SameSlot i f g) (seq : Nat) :
    SameSlot i (markCommitted f seq) (markCommitted g seq) := by
  unfold markCommitted
  split
  · exact h
  · constructor
    · simp only [h.1]
    · simp only [h.2]

theorem SameSlot.foldl (h : SameSlot i f g) (seqs : List Nat) :
    SameSlot i (seqs.foldl markCommitted f) (seqs.foldl markCommitted g) := by
  induction seqs generalizing f g with
  | nil => exact h
  | cons seq seqs ih => exact ih (h.mark seq)

/-- Once a seq is marked, its slot no longer depends on what was there before. -/
theorem sameSlot_of_mem (f g : Forwarding) {seqs : List Nat} {seq : Nat} (hMem : seq ∈ seqs)
    (hSeq : seq ≠ 0) :
    SameSlot (seq % clStatusTableSize) (seqs.foldl markCommitted f)
      (seqs.foldl markCommitted g) := by
  obtain ⟨older, newer, rfl⟩ := append_of_mem hMem
  rw [foldl_append, foldl_append, foldl_cons, foldl_cons]
  refine SameSlot.foldl ?_ newer
  simp only [markCommitted, if_neg hSeq]
  exact ⟨(if_pos rfl).trans (if_pos rfl).symm, (if_pos rfl).trans (if_pos rfl).symm⟩

theorem clusterProposalStatus_congr {n m : Node} {seq : Nat}
    (h : SameSlot (seq % clStatusTableSize) n.fwd m.fwd) :
    clusterProposalStatus n seq = clusterProposalStatus m seq := by
  simp only [clusterProposalStatus, h.1, h.2]

/-- The seqs of a burst that `resolve_local_fwd_acks` marks either are all of them, or reach
every slot of the ring. -/
theorem exists_marked (hNew : f.markedSeq < f.ackedSeq) (hPast : firstMarked f ≠ f.markedSeq + 1)
    (seq : Nat) : ∃ s ∈ range' (firstMarked f) (f.ackedSeq + 1 - firstMarked f),
      s ≠ 0 ∧ s % clStatusTableSize = seq % clStatusTableSize := by
  unfold firstMarked at hPast ⊢
  split at hPast
  · rename_i hWide
    rw [if_pos hWide]
    unfold clStatusTableSize at hWide ⊢
    -- the newest seq of the slot
    refine ⟨f.ackedSeq - (f.ackedSeq + 4096 - seq % 4096) % 4096, mem_range'_1.mpr ?_, ?_, ?_⟩
    all_goals omega
  · exact absurd rfl hPast

/-- Every seq the leader acked is marked, one by one. -/
def markEach (n : Node) : Node :=
  let burst := range' (n.fwd.markedSeq + 1) (n.fwd.ackedSeq - n.fwd.markedSeq)
  { n with fwd := burst.foldl markCommitted n.fwd }

/-- **After `resolve_local_fwd_acks`, every seq has the status it would have if the whole burst
had been marked one by one**, whatever the ring held. (Below the largest `uint64_t` the loop
counter does not wrap.) -/
theorem resolveLocalFwdAcks_status (n : Node) (hNew : n.fwd.markedSeq < n.fwd.ackedSeq)
    (hApplied : n.fwd.ackedIndex ≤ n.log.appliedIndex) (seq : Nat) :
    clusterProposalStatus (resolveLocalFwdAcks n) seq =
      clusterProposalStatus (markEach n) seq := by
  have hGo : ¬(n.fwd.ackedSeq ≤ n.fwd.markedSeq ∨ n.log.appliedIndex < n.fwd.ackedIndex) := by
    omega
  rw [resolveLocalFwdAcks, if_neg hGo]
  apply clusterProposalStatus_congr
  obtain ⟨k, hFirst⟩ : ∃ k, firstMarked n.fwd = n.fwd.markedSeq + 1 + k ∧
      k ≤ n.fwd.ackedSeq - n.fwd.markedSeq := by
    unfold firstMarked clStatusTableSize
    split
    · exact ⟨n.fwd.ackedSeq - 4095 - (n.fwd.markedSeq + 1), by omega⟩
    · exact ⟨0, by omega⟩
  -- the burst is what is passed over, followed by what is marked
  have hSplit : range' (n.fwd.markedSeq + 1) (n.fwd.ackedSeq - n.fwd.markedSeq) =
      range' (n.fwd.markedSeq + 1) k ++
        range' (firstMarked n.fwd) (n.fwd.ackedSeq + 1 - firstMarked n.fwd) := by
    rw [hFirst.1, range'_append_1]
    congr 1
    omega
  rw [markEach, hSplit, foldl_append]
  by_cases hAll : firstMarked n.fwd = n.fwd.markedSeq + 1
  · obtain rfl : k = 0 := by omega
    exact ⟨rfl, rfl⟩
  · obtain ⟨s, hMem, hSeq, hSlot⟩ := exists_marked hNew hAll seq
    rw [← hSlot]
    exact sameSlot_of_mem _ _ hMem hSeq

/-- A burst wider than the ring, with nothing marked before. -/
theorem resolveLocalFwdAcks_status_wide :
    let n : Node := { cfg := ⟨0, 3, true, 1000, 0⟩, fwd := { ackedSeq := 5000 } }
    n.fwd.markedSeq < n.fwd.ackedSeq ∧ n.fwd.ackedIndex ≤ n.log.appliedIndex ∧
      clusterProposalStatus (resolveLocalFwdAcks n) 7 = clusterProposalStatus (markEach n) 7 :=
  ⟨by decide, by decide, resolveLocalFwdAcks_status _ (by decide) (by decide) 7⟩

end BeaverMQ
