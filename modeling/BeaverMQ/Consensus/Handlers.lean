import BeaverMQ.Model.Cluster
import BeaverMQ.Storage.Journal

/-!
# BeaverMQ — what the functions of a callback leave alone

Equations and frame lemmas for the functions of `cluster.c` that a callback goes through: what
`storage_write_failed`, a flush or a pump of the peers changes, what is left of the log after an
accepted APPEND, and `log_compact_to` cut into its three parts.
-/

namespace BeaverMQ

open List

variable {n n₁ n₂ : Node}

/-! ## Storage -/

/-- What `persist_write_flush` leaves alone; a failed write demotes a leader. -/
structure Flushed (n n' : Node) : Prop where
  log : n'.log = n.log
  term : n'.term = n.term
  fwd : n'.fwd = n.fwd
  role : n'.role = n.role ∨ n'.storageFailed = true
  follower : n.role = .follower → n'.role = .follower
  leader : n'.role = .leader → n.role = .leader

theorem flushed_persistWriteFlush (n : Node) : Flushed n (persistWriteFlush n) := by
  have hFlush := flushes_persistWriteFlush n
  generalize persistWriteFlush n = m at hFlush
  cases hFlush with
  | idle | write => exact ⟨rfl, rfl, rfl, .inl rfl, id, id⟩
  | lost => refine ⟨rfl, rfl, rfl, .inr rfl, ?_, ?_⟩ <;> cases n.role <;> simp [Role.demote]

theorem persistWriteFlush_setLog (n : Node) (l : Log) :
    persistWriteFlush { n with log := l } = { persistWriteFlush n with log := l } := by
  by_cases hRoom : n.persist.writePos + n.persist.wbuf.length ≤ n.persist.allocSize <;>
    by_cases hSpace : n.io.fallocOk = true <;> by_cases hOk : n.io.writeOk = true <;>
    simp [persistWriteFlush, persistReserve, storageWriteFailed_eq, Node.emit, hRoom, hSpace, hOk,
      apply_ite fun m : Node => { m with log := l }]

/-! ## Pumping the peers -/

/-- The frames of a snapshot stream. -/
def Frame.streams : Frame → Bool
  | .snapBegin .. | .snapChunk .. | .snapEnd .. => true
  | _ => false

/-- A relation between nodes that each step of a pump keeps. -/
structure Pumped (R : Node → Node → Prop) : Prop where
  refl : ∀ n, R n n
  trans : ∀ {n₁ n₂ n₃}, R n₁ n₂ → R n₂ n₃ → R n₁ n₃
  peer : ∀ n p f, R n (n.updPeer p f)
  send : ∀ n p f, f.streams = true → R n (clSend n p f)
  append : ∀ n p, R n (sendAppend n p)

namespace Pumped

variable {R : Node → Node → Prop} (h : Pumped R)
include h

theorem snapPumpLoop (p k : Nat) : R n (snapPumpLoop p k n) := by
  induction k generalizing n with
  | zero => exact h.refl n
  | succ k ih =>
    unfold BeaverMQ.snapPumpLoop
    extract_lets s
    generalize (if s.msgs = [] then _ else _ : _ × _) = loaded
    obtain ⟨queues, msgs⟩ := loaded
    dsimp only
    split
    · split
      · exact h.peer n p _
      · exact h.trans (h.trans (h.peer n p _) (h.peer _ p _)) (h.send _ p _ rfl)
    · exact h.trans (h.trans (h.send n p _ rfl) (h.peer _ p _)) ih

theorem snapPump (n : Node) (p : Nat) : R n (snapPump n p) := by
  unfold BeaverMQ.snapPump
  split
  · exact h.snapPumpLoop p _
  · exact h.refl n

theorem pumpLoop (p k : Nat) : R n (pumpLoop p k n) := by
  induction k generalizing n with
  | zero => exact h.refl n
  | succ k ih =>
    unfold BeaverMQ.pumpLoop
    split
    · dsimp only
      split
      · exact h.append n p
      · exact h.trans (h.append n p) ih
    · exact h.refl n

theorem pumpPeer (n : Node) (p : Nat) : R n (pumpPeer n p) := by
  unfold BeaverMQ.pumpPeer
  split
  · exact h.refl n
  split
  · exact h.snapPump n p
  split
  · exact h.trans (h.trans (h.peer n p _) (h.send _ p _ rfl)) (h.snapPump _ p)
  · exact h.pumpLoop p _

theorem replicateToPeers (n : Node) : R n (replicateToPeers n) :=
  List.foldlRecOn _ _ (h.refl n) fun m hm p _ => h.trans hm (h.pumpPeer m p)

end Pumped

/-- `n'` differs from `n` in the peers' bookkeeping and in what was sent. -/
def Sends (n n' : Node) : Prop := ∃ peer out, n' = { n with peer, out }

theorem pumped_sends : Pumped Sends where
  refl n := ⟨n.peer, n.out, rfl⟩
  trans := by
    rintro _ _ _ ⟨p₁, o₁, rfl⟩ ⟨p₂, o₂, rfl⟩
    exact ⟨p₂, o₂, rfl⟩
  peer _ _ _ := ⟨_, _, rfl⟩
  send _ _ _ _ := ⟨_, _, rfl⟩
  append _ _ := ⟨_, _, rfl⟩

theorem updPeer_updPeer (n : Node) (p : Nat) (f g : Peer → Peer) :
    (n.updPeer p f).updPeer p g = n.updPeer p (g ∘ f) := by
  unfold Node.updPeer
  congr 1
  funext q
  by_cases hq : q = p <;> simp [hq]

/-! ## Terms -/

theorem observeTerm_false {t : Nat} (h : (observeTerm n t).2 = false) :
    (observeTerm n t).1 = n ∧ t ≤ n.term := by
  unfold observeTerm at h ⊢
  split
  · rename_i hLe
    exact ⟨rfl, hLe⟩
  rename_i hLe
  rw [if_neg hLe] at h
  cases h

theorem observeTerm_elim {P : Node → Prop} {t : Nat} {next : Node → Node}
    (hSeen : P (observeTerm n t).1) (hNext : t ≤ n.term → P (next n)) :
    P (match observeTerm n t with
      | (m, true) => m
      | (m, false) => next m) := by
  cases hRes : observeTerm n t with
  | mk m flag =>
    rw [hRes] at hSeen
    cases flag with
    | true => exact hSeen
    | false =>
      obtain ⟨hEq, hLe⟩ := observeTerm_false (n := n) (t := t) (by rw [hRes])
      rw [hRes] at hEq
      subst hEq
      exact hNext hLe

/-! ## AppendEntries, receiving side -/

theorem foldl_logAppend (n : Node) (es : List Entry) :
    es.foldl logAppend n =
      { n with log := { n.log with entries := n.log.entries ++ es }
               persist := pushRecords n.persist (n.log.lastIndex + 1) es } := by
  induction es generalizing n with
  | nil => simp [pushRecords]
  | cons e es ih =>
    rw [foldl_cons, ih]
    simp [logAppend, pushRecords, Log.lastIndex, Nat.add_assoc]

/-- `log_truncate_from` does nothing exactly when no entry stands behind `prev`. -/
theorem droppedTail_eq_nil_iff (l : Log) (prev : Nat) :
    droppedTail l prev = [] ↔ l.lastIndex < spliceFrom l prev := by
  unfold droppedTail spliceFrom Log.lastIndex
  rw [drop_eq_nil_iff]
  omega

theorem truncate_clamp (l : Log) (prev : Nat) :
    (if prev + 1 ≤ l.baseIndex then l.baseIndex + 1 else prev + 1) = spliceFrom l prev := by
  unfold spliceFrom
  split <;> omega

theorem spliceLog_of_noTail {l : Log} {prev : Nat} (hTail : droppedTail l prev = [])
    (es : List Entry) : spliceLog l prev es = { l with entries := l.entries ++ es } := by
  unfold droppedTail at hTail
  have hTake : l.entries.take (prev - l.baseIndex) = l.entries :=
    take_of_length_le (drop_eq_nil_iff.mp hTail)
  unfold spliceLog
  rw [hTake]

/-- The log-matching check of `CL_FRAME_APPEND` passes. -/
def Accepts (n : Node) (t prev pt : Nat) : Prop :=
  n.term ≤ t ∧ prev ≤ n.log.lastIndex ∧ (0 < prev → logTermAt n.log prev = pt)

instance (n : Node) (t prev pt : Nat) : Decidable (Accepts n t prev pt) :=
  inferInstanceAs (Decidable (_ ∧ _))

/-! ## Compaction -/

theorem rebase_lastIndex (l : Log) (upto : Nat) (hNew : l.baseIndex < upto) :
    upto + (l.entries.drop (upto - l.baseIndex)).length - upto = l.lastIndex - upto := by
  rw [length_drop]
  unfold Log.lastIndex
  omega

/-- What `log_compact_to` does after the snapshot is written and the buffer flushed. -/
def rebaseTo (n : Node) (upto off : Nat) : Node :=
  let m : Node := { n with log := rebaseLog n.log upto
                           persist := rebasePersist n.persist n.log upto off }
  if 0 < off then m.emit (.file (.punch off)) else m

theorem rebaseTo_fields (n : Node) (upto off : Nat) :
    (rebaseTo n upto off).persist = rebasePersist n.persist n.log upto off ∧
      (rebaseTo n upto off).log = rebaseLog n.log upto ∧
      (rebaseTo n upto off).io = n.io ∧
      (rebaseTo n upto off).storageFailed = n.storageFailed := by
  unfold rebaseTo
  dsimp only
  split <;> exact ⟨rfl, rfl, rfl, rfl⟩

theorem rebaseTo_disk (n : Node) (d : Disk) (upto off : Nat) :
    (d.applyAll (rebaseTo n upto off).out).log = punchHole (d.applyAll n.out).log off ∧
      (d.applyAll (rebaseTo n upto off).out).snap = (d.applyAll n.out).snap := by
  unfold rebaseTo punchHole
  dsimp only
  split
  · rw [Node.emit, Disk.applyAll, foldl_append]
    exact ⟨rfl, rfl⟩
  · exact ⟨rfl, rfl⟩

theorem persistCompact_eq (n : Node) (upto off : Nat) (hNew : n.log.baseIndex < upto) :
    persistCompact { n with log := rebaseLog n.log upto } upto off =
      rebaseTo (persistWriteFlush n) upto off := by
  have hLog := (flushed_persistWriteFlush n).log
  unfold persistCompact rebaseTo
  rw [persistWriteFlush_setLog, hLog]
  unfold rebasePersist rebaseLog
  dsimp only
  rw [← rebase_lastIndex n.log upto hNew]
  rfl

/-- The snapshot that `log_compact_to` writes for the boundary `upto`. -/
def boundarySnap (n : Node) (upto : Nat) : SnapFile where
  baseIndex := upto
  baseTerm := logTermAt n.log upto
  baseOffset := boundaryOffset n.persist upto
  topo := n.applied.topo
  msgs := liveRecords n.applied.broker upto

theorem logCompactTo_eq {upto : Nat} (hIo : n.io.snapshotOk = true)
    (hBatch : n.log.baseIndex + clCompactBatch ≤ compactIndex n upto) :
    logCompactTo n upto =
      rebaseTo (persistWriteFlush
          (n.emit (.snapshot (boundarySnap n (compactIndex n upto)))))
        (compactIndex n upto) (boundaryOffset n.persist (compactIndex n upto)) := by
  unfold logCompactTo
  generalize compactIndex n upto = u at hBatch
  have hNew : n.log.baseIndex < u := by
    unfold clCompactBatch at hBatch
    omega
  dsimp only
  rw [if_neg (by omega), if_neg (by omega)]
  unfold snapshotWrite
  rw [if_pos hIo]
  exact persistCompact_eq (n.emit (.snapshot (boundarySnap n u))) u _ hNew

theorem logCompactTo_none {upto : Nat}
    (h : ¬ (n.io.snapshotOk = true ∧ n.log.baseIndex + clCompactBatch ≤ compactIndex n upto)) :
    logCompactTo n upto = n := by
  unfold logCompactTo
  generalize compactIndex n upto = u at h
  dsimp only
  split
  · rfl
  split
  · rfl
  · unfold snapshotWrite
    rw [if_neg fun hIo => h ⟨hIo, by omega⟩]

/-- `fsync_timer_cb` up to its compaction sweep. -/
def beforeCompact (n : Node) : Node :=
  let n := persistSync n
  let n := if n.cfg.durableCommit ∧ n.role = .leader then advanceCommit n else n
  resendSweep n

/-! ## Starting -/

theorem persistLoad_facts (n : Node) (d : Disk) :
    (persistLoad n d).cfg = n.cfg ∧ (persistLoad n d).io = n.io ∧
      (persistLoad n d).term = d.term ∧ (persistLoad n d).votedFor = d.votedFor ∧
      ∃ size, (persistLoad n d).out = n.out ++ [.file (.truncate size)] := by
  unfold persistLoad
  cases d.snap <;> exact ⟨rfl, rfl, rfl, rfl, _, rfl⟩

theorem boot_facts {S : Setup} (i : Nat) (d : Disk) :
    (S.boot i d).cfg = (S.freshNode i).cfg ∧ (S.boot i d).io = {} ∧
      (S.boot i d).term = d.term ∧ (S.boot i d).votedFor = d.votedFor ∧
      ∃ size, (S.boot i d).out = [.file (.truncate size)] :=
  persistLoad_facts (S.freshNode i) d

/-! ## How a callback starts -/

def isShake : Frame → Bool
  | .hello _ | .helloAck _ => true
  | _ => false

/-- How a frame from `src` gets to `cl_dispatch` of node `i`. -/
inductive Taken (c : Cluster) (i src : Nat) (f : Frame) : Input → Prop
  | shake {inp : Input} (hShake : isShake f = true) : Taken c i src f inp
  | next {rest : List Frame} (hChan : c.chan src i = f :: rest)
      (hUp : ((c.node i).peer src).linkState = .up) : Taken c i src f (.frame src)

/-- A callback of node `i` is one of its own, or a frame is taken off a channel and lost, makes
the node drop the link, or is dispatched; and what that does to the channels. -/
inductive Begins (c : Cluster) (i : Nat) : Input → Cluster → Node → Prop
  | own {cb : Callback} {c₁ : Cluster} (hOn : cb.enabled (c.node i) = true)
      (hCut : c₁ = c ∨ ∃ p, cb = .linkDown p ∧ c₁ = c.setChan p i []) :
      Begins c i (.own cb) c₁ (cb.run (c.node i))
  | lost {inp : Input} {src : Nat} {f : Frame} {rest : List Frame}
      (hFrom : inp = .frame src ∨ inp = .accept src) (hChan : f :: rest <:+ c.chan src i) :
      Begins c i inp (c.setChan src i rest) (c.node i)
  | dropped {inp : Input} {src : Nat} {f : Frame} {rest : List Frame}
      (hFrom : inp = .frame src ∨ inp = .accept src) (hChan : f :: rest <:+ c.chan src i) :
      Begins c i inp ((c.setChan src i rest).setChan src i []) (dropPeerLink (c.node i) src)
  | dispatched {inp : Input} {src : Nat} {f : Frame} {rest : List Frame} {c₁ : Cluster}
      (hFrom : inp = .frame src ∨ inp = .accept src) (hChan : f :: rest <:+ c.chan src i)
      (hEnds : c₁ = c.setChan src i rest ∨ c₁ = (c.setChan src i rest).setChan i src [])
      (hTaken : Taken c i src f inp) : Begins c i inp c₁ (clDispatch (c.node i) src f)

section Begin

variable {c c₁ : Cluster} {i : Nat} {inp : Input} {n : Node}

theorem begins_receive {src : Nat} {f : Frame} {rest : List Frame}
    (hFrom : inp = .frame src ∨ inp = .accept src) (hChan : f :: rest <:+ c.chan src i)
    (hNext : isShake f = true ∨ inp = .frame src ∧ c.chan src i = f :: rest) :
    Begins c i inp (c.receive src i f rest).1 (c.receive src i f rest).2 := by
  unfold Cluster.receive
  cases f with
  | hello t =>
    dsimp only
    split
    · exact .dispatched hFrom hChan (.inr rfl) (.shake rfl)
    · exact .lost hFrom hChan
  | helloAck t =>
    dsimp only
    split
    · exact .dispatched hFrom hChan (.inl rfl) (.shake rfl)
    · exact .lost hFrom hChan
  | _ =>
    obtain ⟨rfl, hHead⟩ := hNext.resolve_left Bool.false_ne_true
    dsimp only
    split
    · exact .lost hFrom hChan
    rename_i hUp
    split
    · exact .dropped hFrom hChan
    · exact .dispatched hFrom hChan (.inl rfl) (.next hHead (not_not.mp hUp))

theorem begins (hBegin : c.begin i inp = some (c₁, n)) : Begins c i inp c₁ n := by
  unfold Cluster.begin at hBegin
  cases inp with
  | own cb =>
    dsimp only at hBegin
    split at hBegin
    · rename_i hOn
      cases hBegin
      cases cb with
      | linkDown p => exact .own hOn (.inr ⟨p, rfl, rfl⟩)
      | _ => exact .own hOn (.inl rfl)
    · cases hBegin
  | frame src =>
    cases hChan : c.chan src i with
    | nil => simp [hChan] at hBegin
    | cons f rest =>
      simp only [hChan, Option.some.injEq] at hBegin
      have hReads := begins_receive (.inl rfl) (by rw [hChan]) (.inr ⟨rfl, hChan⟩)
      rw [hBegin] at hReads
      exact hReads
  | accept src =>
    cases hChan : (c.chan src i).dropWhile (fun f => !isHello f) with
    | nil => simp [hChan] at hBegin
    | cons f rest =>
      simp only [hChan, Option.some.injEq] at hBegin
      have hHello : isShake f = true := by
        have hHead := head_dropWhile_not (fun f => !isHello f) (l := c.chan src i)
          (by rw [hChan]; simp)
        simp only [hChan, head_cons] at hHead
        cases f <;> first | rfl | cases hHead
      have hReads := begins_receive (.inr rfl) (hChan ▸ dropWhile_suffix _) (.inl hHello)
      rw [hBegin] at hReads
      exact hReads

theorem begin_kept (hBegin : c.begin i inp = some (c₁, n)) :
    c₁.node = c.node ∧ c₁.disk = c.disk := by
  cases begins hBegin with
  | own hOn hCut => rcases hCut with rfl | ⟨p, -, rfl⟩ <;> exact ⟨rfl, rfl⟩
  | lost | dropped => exact ⟨rfl, rfl⟩
  | dispatched _ _ hEnds => rcases hEnds with rfl | rfl <;> exact ⟨rfl, rfl⟩

theorem begin_node (hBegin : c.begin i inp = some (c₁, n)) : c₁.node = c.node :=
  (begin_kept hBegin).1

end Begin

end BeaverMQ
