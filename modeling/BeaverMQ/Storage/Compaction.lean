import BeaverMQ.Consensus.Moves
import BeaverMQ.Storage.SnapshotFile

/-!
# BeaverMQ — recovery after a compaction

As long as storage works, the log file of every node is a journal of its log, through
elections, truncations, snapshot installs, crashes and restarts. A compaction writes a
boundary and the file offset of the first survivor to the snapshot; the offset comes from
an array cell which, when no record survives, nobody may have written.
-/

namespace BeaverMQ

open Bytes List

/-! ## A record behind the wrong offset -/

theorem zeros_of_prefix_enc {index : Nat} (hPos : 0 < index) (hIndex : index < 2 ^ 64)
    {e : Entry} (hZero : ∀ b ∈ encRecord index e, b = 0) : False := by
  have hField : beVal (beBytes 8 index) = 0 := by
    have hMem : ∀ b ∈ beBytes 8 index, b = 0 := by
      intro b hb
      refine hZero b ?_
      unfold encRecord
      simp [hb]
    rw [eq_replicate_of_mem hMem, beVal_replicate_zero]
  rw [beVal_beBytes_of_lt (by omega)] at hField
  omega

/-- Two records that differ in their term, each written behind `dead`, are both found at
`off` only if that is where they were written. -/
theorem record_offset_eq {dead : Bytes} {off index k₀ k₁ : Nat} (hPos : 0 < index)
    (hIndex : index < 2 ^ 64)
    (h₀ : encRecord index ⟨0, 0, []⟩ <+:
      (dead ++ encRecord index ⟨0, 0, []⟩ ++ replicate k₀ 0).drop off)
    (h₁ : encRecord index ⟨1, 0, []⟩ <+:
      (dead ++ encRecord index ⟨1, 0, []⟩ ++ replicate k₁ 0).drop off) :
    dead.length = off := by
  have hTerm : ∀ t, (encRecord index ⟨t, 0, []⟩).take 8 = beBytes 8 t := by
    intro t
    unfold encRecord
    rw [append_assoc, append_assoc, append_assoc, take_left' (by simp)]
  rcases Nat.lt_trichotomy dead.length off with hBehind | hEq | hBefore
  · -- the loader starts inside the new record or behind it
    rw [append_assoc, drop_append, drop_eq_nil_of_le hBehind.le,
      nil_append] at h₀
    exact (zeros_of_prefix_enc hPos hIndex
      (eq_zero_of_prefix_drop (Nat.sub_pos_of_lt hBehind) h₀)).elim
  · exact hEq
  · have hDrop : ∀ t k, (dead ++ encRecord index ⟨t, 0, []⟩ ++ replicate k 0).drop off =
        dead.drop off ++ encRecord index ⟨t, 0, []⟩ ++ replicate k 0 := by
      intro t k
      rw [append_assoc, drop_append_of_le_length hBefore.le, ← append_assoc]
    rw [hDrop] at h₀ h₁
    have hGap : (dead.drop off).length = dead.length - off := length_drop
    by_cases hWide : 8 ≤ dead.length - off
    · -- the old bytes would have to be two terms at once
      have hOld : ∀ {t k}, encRecord index ⟨t, 0, []⟩ <+:
          dead.drop off ++ encRecord index ⟨t, 0, []⟩ ++ replicate k 0 →
          beBytes 8 t = (dead.drop off).take 8 := by
        intro t k h
        have hTake := h.take 8
        rw [hTerm, append_assoc, take_append_of_le_length (by omega)] at hTake
        exact hTake.eq_of_length (by simp; omega)
      have hSame := congrArg beVal ((hOld h₀).trans (hOld h₁).symm)
      rw [beVal_beBytes_of_lt (by decide), beVal_beBytes_of_lt (by decide)] at hSame
      cases hSame
    · -- the old bytes are the first bytes of a term 0
      have hZero : ∀ b ∈ dead.drop off, b = 0 := by
        intro b hb
        have hTake := h₀.take (dead.length - off)
        rw [append_assoc, take_left' hGap] at hTake
        have hLong : (encRecord index ⟨0, 0, []⟩).length = 24 := encRecord_length _ _
        have hHead := hTake.eq_of_length (by rw [length_take, hLong, hGap]; omega)
        have hIn : b ∈ (encRecord index ⟨0, 0, []⟩).take 8 := by
          rw [← hHead] at hb
          exact (take_sublist_take_left (by omega)).subset hb
        rw [hTerm] at hIn
        exact eq_of_mem_replicate (n := 8) hIn
      refine (zeros_of_prefix_enc hPos hIndex (eq_zero_of_prefix_append ?_ hZero h₀)).elim
      intro hNil
      rw [hNil, length_nil] at hGap
      omega

/-! ## The journal invariant -/

/-- Storage works and never failed, and the log file, once the effects of the running callback
have happened to the disk `d`, is a journal of the log. -/
structure Kept (d : Disk) (n : Node) : Prop where
  io : n.io = {}
  failed : n.storageFailed = false
  journal : ∃ dead, Journal dead n.log.baseIndex n.log.entries n.persist (d.applyAll n.out).log

/-! ## A compaction and what follows it -/

/-- When writes succeed, `persist_write_flush` changes the bookkeeping of the file only, and
leaves the offset cells alone. -/
theorem persistWriteFlush_io {n : Node} (hIo : n.io = {}) :
    ∃ ps out, persistWriteFlush n = { n with persist := ps, out } ∧
      ps.offsets = n.persist.offsets ∧ ps.logSize = n.persist.logSize ∧
      ps.baseIndex = n.persist.baseIndex ∧ ps.heap = n.persist.heap := by
  have hFlush := flushes_persistWriteFlush n
  generalize persistWriteFlush n = m at hFlush
  cases hFlush with
  | idle | write => exact ⟨_, _, rfl, rfl, rfl, rfl, rfl⟩
  | lost _ _ hBad => exact absurd (by rw [hIo]) hBad

section Compact

variable {n : Node} {d₀ : Disk} {upto : Nat}

/-- **What a compaction leaves**: the boundary in the snapshot, and behind a dead prefix the
records of the survivors. -/
theorem compact_journal (hKept : Kept d₀ n)
    (hBatch : n.log.baseIndex + clCompactBatch ≤ compactIndex n upto) :
    ∃ dead,
      (dead.length = boundaryOffset n.persist (compactIndex n upto) ↔
        OffsetValid n.log n.persist (compactIndex n upto)) ∧
      Journal dead (compactIndex n upto)
        (n.log.entries.drop (compactIndex n upto - n.log.baseIndex))
        (logCompactTo n upto).persist (d₀.applyAll (logCompactTo n upto).out).log ∧
      (logCompactTo n upto).log = rebaseLog n.log (compactIndex n upto) ∧
      (logCompactTo n upto).io = {} ∧ (logCompactTo n upto).storageFailed = false ∧
      (d₀.applyAll (logCompactTo n upto).out).snap =
        some (boundarySnap n (compactIndex n upto)) := by
  obtain ⟨hIo, hFailed, dead, hJournal⟩ := hKept
  rw [logCompactTo_eq (by rw [hIo]) hBatch]
  generalize compactIndex n upto = u at hBatch
  set m := n.emit (.snapshot (boundarySnap n u)) with hm
  have hDisk : d₀.applyAll m.out = (d₀.applyAll n.out).apply (.snapshot (boundarySnap n u)) := by
    rw [hm, Node.emit, applyAll_append]
    rfl
  -- the flush
  obtain ⟨effs, hOut, hWrote⟩ := wrote_persistWriteFlush m (d₀.applyAll m.out)
    (show n.io.writeOk = true by rw [hIo])
  have hLog := (flushed_persistWriteFlush m).log
  have hBuf := persistWriteFlush_wbuf m
  obtain ⟨hCells, hSize, hBase⟩ : (persistWriteFlush m).persist.offsets = m.persist.offsets ∧
      (persistWriteFlush m).persist.logSize = m.persist.logSize ∧
      (persistWriteFlush m).persist.baseIndex = m.persist.baseIndex := by
    obtain ⟨ps, out, hEq, hCells, hSize, hBase, -⟩ := persistWriteFlush_io (n := m) hIo
    rw [hEq]
    exact ⟨hCells, hSize, hBase⟩
  obtain ⟨-, hFlushIo, hFlushFailed, hSnap, hKeeps⟩ := hWrote
  have hFlushed : Journal dead n.log.baseIndex n.log.entries (persistWriteFlush m).persist
      ((d₀.applyAll m.out).applyAll effs).log :=
    hKeeps (by rw [hDisk]; exact hJournal)
  rw [← applyAll_append, ← hOut] at hFlushed hSnap
  generalize persistWriteFlush m = w at *
  have hOffset : boundaryOffset w.persist u = boundaryOffset n.persist u := by
    unfold boundaryOffset
    rw [hCells, hSize, hBase]
    rfl
  have hValid : OffsetValid n.log w.persist u ↔ OffsetValid n.log n.persist u := by
    unfold OffsetValid
    rw [hOffset, hCells, hSize, hBase]
    rfl
  -- the rebase
  have hNew : n.log.baseIndex < u := by
    unfold clCompactBatch at hBatch
    omega
  obtain ⟨dead', hLen, hRebased⟩ := hFlushed.rebase hBuf hNew
  rw [hOffset, hValid] at hLen
  rw [hOffset] at hRebased
  have hLogEq : w.log = n.log := hLog
  have hFile := rebaseTo_disk w d₀ u (boundaryOffset n.persist u)
  obtain ⟨hPersist, hRebaseLog, hRebaseIo, hRebaseFailed⟩ :=
    rebaseTo_fields w u (boundaryOffset n.persist u)
  refine ⟨dead', hLen, ?_, ?_, ?_, ?_, ?_⟩
  · rw [hFile.1, hPersist, hLogEq]
    exact hRebased
  · rw [hRebaseLog, hLogEq]
  · rw [hRebaseIo, hFlushIo]
    exact hIo
  · rw [hRebaseFailed, hFlushFailed]
    exact hFailed
  · rw [hFile.2, hSnap, hDisk]
    rfl

theorem append_sync_journal {dead : Bytes} (es : List Entry) (hIo : n.io = {})
    (hOk : n.storageFailed = false)
    (hJournal : Journal dead n.log.baseIndex n.log.entries n.persist (d₀.applyAll n.out).log) :
    Journal dead n.log.baseIndex (n.log.entries ++ es)
        (persistSync (es.foldl logAppend n)).persist
        (d₀.applyAll (persistSync (es.foldl logAppend n)).out).log ∧
      (persistSync (es.foldl logAppend n)).persist.wbuf = [] ∧
      (persistSync (es.foldl logAppend n)).log.entries = n.log.entries ++ es ∧
      (d₀.applyAll (persistSync (es.foldl logAppend n)).out).snap =
        (d₀.applyAll n.out).snap := by
  rw [foldl_logAppend]
  set m : Node := { n with
    log := { n.log with entries := n.log.entries ++ es }
    persist := pushRecords n.persist (n.log.lastIndex + 1) es } with hm
  have hPushed : Journal dead m.log.baseIndex m.log.entries m.persist (d₀.applyAll m.out).log :=
    hJournal.push es
  obtain ⟨effs, hOut, hWrote, hBuf, -⟩ := wrote_persistSync m (d₀.applyAll m.out) hIo hOk
  obtain ⟨⟨hEntries, -⟩, -, -, hSnap, hKeeps⟩ := hWrote
  have hSynced := hKeeps hPushed
  rw [← applyAll_append, ← hOut] at hSynced hSnap
  exact ⟨hSynced, hBuf, hEntries, hSnap⟩

end Compact

/-! ## Stages keep the journal -/

section Stages

variable {d : Disk} {n n₁ : Node}

theorem Kept.wrote (h : Kept d n) {effs : List Effect} (hOut : n₁.out = n.out ++ effs)
    (hWrote : Wrote n n₁ (d.applyAll n.out) ((d.applyAll n.out).applyAll effs)) : Kept d n₁ := by
  obtain ⟨hIo, hFailed, dead, hJournal⟩ := h
  obtain ⟨⟨hEntries, hBase⟩, hIo', hFailed', -, hKeeps⟩ := hWrote
  refine ⟨hIo'.trans hIo, hFailed'.trans hFailed, dead, ?_⟩
  rw [hEntries, hBase, hOut, applyAll_append]
  exact hKeeps hJournal

theorem kept_flush (h : Kept d n) : Kept d (persistWriteFlush n) := by
  obtain ⟨effs, hOut, hWrote⟩ := wrote_persistWriteFlush n (d.applyAll n.out) (by rw [h.io])
  exact h.wrote hOut hWrote

theorem Kept.emit (h : Kept d n) {e : Effect} (hFile : ∀ d : Disk, (d.apply e).log = d.log) :
    Kept d (n.emit e) := by
  obtain ⟨hIo, hFailed, dead, hJournal⟩ := h
  refine ⟨hIo, hFailed, dead, ?_⟩
  show Journal dead _ _ _ (d.applyAll (n.out ++ [e])).log
  rw [applyAll_append]
  exact (hFile (d.applyAll n.out)).symm ▸ hJournal

theorem kept_persistMeta (h : Kept d n) : Kept d (persistMeta n) := by
  unfold persistMeta
  rw [if_pos (by rw [h.io])]
  exact h.emit fun _ => rfl

theorem kept_replaceTail (h : Kept d n) (prev : Nat) (es : List Entry) :
    Kept d (es.foldl logAppend (logTruncateFrom n (prev + 1))) := by
  rw [foldl_logAppend]
  unfold logTruncateFrom
  rw [truncate_clamp]
  dsimp only
  by_cases hTail : droppedTail n.log prev = []
  · rw [if_pos ((droppedTail_eq_nil_iff _ _).mp hTail)]
    obtain ⟨hIo, hFailed, dead, hJournal⟩ := h
    exact ⟨hIo, hFailed, dead, hJournal.push es⟩
  have hLast : spliceFrom n.log prev ≤ n.log.lastIndex := by
    rw [droppedTail_eq_nil_iff] at hTail
    omega
  have hPos : ¬ spliceFrom n.log prev < 1 := by
    unfold spliceFrom
    omega
  rw [if_neg (by omega)]
  unfold persistTruncate
  rw [if_neg hPos]
  -- what the buffer holds is written before the file is cut
  have hLog := (flushed_persistWriteFlush n).log
  have hBuf := persistWriteFlush_wbuf n
  obtain ⟨hIo, hFailed, dead, hJournal⟩ := kept_flush h
  generalize persistWriteFlush n = m at *
  rw [← hLog] at hTail hLast ⊢
  dsimp only
  rw [if_pos (by rw [hIo])]
  refine ⟨hIo, hFailed, dead, ?_⟩
  have hKeep : spliceFrom m.log prev - 1 - m.log.baseIndex = prev - m.log.baseIndex := by
    unfold spliceFrom
    omega
  have hPushed := (hJournal.cut hBuf hTail).push es
  show Journal dead _ (m.log.entries.take (spliceFrom m.log prev - 1 - m.log.baseIndex) ++ es)
    _ (d.applyAll (m.out ++ [_])).log
  rw [applyAll_append, hKeep]
  exact hPushed

theorem kept_installSnapshot (h : Kept d n) (base bt : Nat) (topo : List TopoRec) :
    Kept d (installSnapshot n base bt topo) := by
  have hFile : Journal [] base [] (installPersist n.persist base)
      (d.applyAll (n.out ++ [.file (.truncate 0)])).log := by
    rw [applyAll_append]
    exact journal_install n.persist (d.applyAll n.out).log base
  have hIo : n.io.truncateOk = true := by rw [h.io]
  unfold installSnapshot
  dsimp only
  rw [if_pos hIo]
  split <;> exact ⟨h.io, h.failed, [], hFile⟩

theorem kept_logCompactTo (h : Kept d n) (upto : Nat) : Kept d (logCompactTo n upto) := by
  by_cases hBatch : n.log.baseIndex + clCompactBatch ≤ compactIndex n upto
  · obtain ⟨dead, -, hJournal, hLog, hIo, hFailed, -⟩ := compact_journal h hBatch
    refine ⟨hIo, hFailed, dead, ?_⟩
    rw [hLog]
    exact hJournal
  · rw [logCompactTo_none fun hGo => hBatch hGo.2]
    exact h

theorem Stores.kept {G : Gate} (hStores : Stores G n n₁) (h : Kept d n) : Kept d n₁ := by
  cases hStores with
  | flush => exact kept_flush h
  | sync =>
    obtain ⟨effs, hOut, hWrote, -⟩ := wrote_persistSync n (d.applyAll n.out) h.io h.failed
    exact h.wrote hOut hWrote
  | append e hRole hTerm hGate =>
    obtain ⟨hIo, hFailed, dead, hJournal⟩ := h
    exact ⟨hIo, hFailed, dead, hJournal.append e⟩
  | splice prev es hGate => exact kept_replaceTail h prev es
  | install base bt topo hGate => exact kept_installSnapshot h base bt topo
  | compact upto => exact kept_logCompactTo h upto
  | snapshot base bt off =>
    unfold snapshotWrite
    rw [if_pos (by rw [h.io])]
    exact h.emit fun _ => rfl

def workingGate : StageGate := { io := fun io => io = {} }

/-- **Every stage of a node whose storage works keeps the journal.** -/
theorem Stage.kept (hStage : Stage workingGate n n₁) (h : Kept d n) : Kept d n₁ := by
  cases hStage with
  | turn hTurn hGround =>
    obtain ⟨hIo, hFailed, dead, hJournal⟩ := h
    obtain ⟨effs, hOut, hPassing⟩ := hTurn.passing hGround
    have hFile : d.applyAll n₁.out = d.applyAll n.out := by
      rw [hOut, applyAll_append, applyAll_of_passing hPassing]
    have hBase : n₁.log.baseIndex = n.log.baseIndex := congrArg Ground.base hGround
    have hEntries : n₁.log.entries = n.log.entries := congrArg Ground.entries hGround
    have hPersist : n₁.persist = n.persist := congrArg Ground.persist hGround
    refine ⟨(congrArg Ground.io hGround).trans hIo, (congrArg Ground.failed hGround).trans hFailed,
      dead, ?_⟩
    rw [hFile, hBase, hEntries, hPersist]
    exact hJournal
  | store hStores => exact hStores.kept h
  | adopt | campaign | vote => exact kept_persistMeta ⟨h.io, h.failed, h.journal⟩
  | grant | request => exact h.emit fun _ => rfl
  | setIo io hGate => exact ⟨hGate, h.failed, h.journal⟩
  | count | follow | lead => exact ⟨h.io, h.failed, h.journal⟩

theorem Stages.kept (hStages : Stages workingGate n n₁) (h : Kept d n) : Kept d n₁ := by
  induction hStages with
  | refl => exact h
  | next _ hStage ih => exact hStage.kept ih

end Stages

/-! ## Runs -/

variable {S : Setup}

theorem kept_rebooted (i : Nat) (d : Disk) (old : Node) (hIo : old.io = {}) :
    Kept (d.applyAll (S.boot i d).out) (S.rebooted i d old) := by
  obtain ⟨dead, -, hJournal⟩ := journal_load (S.freshNode i) d rfl rfl
  have hOut : (S.boot i d).out = [.file (.truncate (S.boot i d).persist.logSize)] ∧
      (S.boot i d).storageFailed = false := by
    unfold Setup.boot persistLoad
    cases d.snap <;> exact ⟨rfl, rfl⟩
  refine ⟨hIo, hOut.2, dead, ?_⟩
  rw [hOut.1]
  exact hJournal

/-- Events during which storage works and no data directory is lost. -/
def Event.storageWorks : Event → Bool
  | .step _ (.own (.setIo io)) | .crashIn _ (.own (.setIo io)) _ _ => io = {}
  | .wipe _ => false
  | _ => true

def StorageWorks (_ : Cluster) (ev : Event) (_ : Cluster) : Prop := ev.storageWorks = true

theorem kept_begin {c c₁ : Cluster} {i : Nat} {inp : Input} {m : Node}
    (hBegin : c.begin i inp = some (c₁, m)) (hWorks : (Event.step i inp).storageWorks = true)
    (h : Kept (c.disk i) (c.node i)) : Kept (c.disk i) m := by
  cases begins hBegin with
  | @own cb =>
    refine (stages_callback cb (callbackGate_free cb) (callback_free cb) ?_).kept h
    cases cb with
    | setIo io => exact (of_decide_eq_true hWorks : io = {})
    | _ => trivial
  | lost => exact h
  | dropped => exact ⟨h.io, h.failed, h.journal⟩
  | @dispatched inp src f =>
    exact (stages_clDispatch src f (frameGate_free src f) (frame_free f)
      (by cases f <;> trivial)).kept h

/-- **In every run in which storage works, every log file is a journal.** -/
theorem kept_run {c : Cluster} (hReach : Run.Reach (Cluster.step S) StorageWorks S.init c)
    (i : Nat) : (c.node i).out = [] ∧ Kept (c.disk i) (c.node i) := by
  refine Run.Reach.invariant
    (P := fun c => ∀ i, (c.node i).out = [] ∧ Kept (c.disk i) (c.node i)) ?_ ?_ hReach i
  · intro c e c' hKept hStep hWorks i
    have hNode := nodeStep_of_step hStep i
    generalize c'.node i = n, c'.disk i = d at hNode
    cases hNode with
    | same => exact hKept i
    | @callback inp c₁ m hBegin =>
      obtain ⟨hIo, hFailed, hJournal⟩ := kept_begin hBegin hWorks (hKept i).2
      exact ⟨rfl, hIo, hFailed, hJournal⟩
    | restart d => exact ⟨rfl, kept_rebooted i d _ (hKept i).2.io⟩
  · intro i
    exact ⟨rfl, kept_rebooted i {} (S.freshNode i) rfl⟩

/-! ## Recovery after a compaction -/

/-- A node of a cluster as `log_compact_to` may find it: between two callbacks, or inside
`fsync_timer_cb` at the compaction sweep. -/
inductive Cluster.Finds (c : Cluster) (i : Nat) : Node → Prop
  | idle : c.Finds i (c.node i)
  | sweep : c.Finds i (beforeCompact (c.node i))

theorem finds_kept {c : Cluster} {i : Nat} {n : Node}
    (hReach : Run.Reach (Cluster.step S) StorageWorks S.init c) (hFinds : c.Finds i n) :
    Kept (c.disk i) n := by
  have hKept := (kept_run hReach i).2
  cases hFinds with
  | idle => exact hKept
  | sweep => exact (stages_beforeCompact fun _ => trivial).kept hKept

def compactThen (n : Node) (upto : Nat) (es : List Entry) : Node :=
  persistSync (es.foldl logAppend (logCompactTo n upto))

/-- A restart after that finds the boundary and the entries of the in-memory log. -/
def Recovers (S : Setup) (c : Cluster) (i : Nat) (n : Node) (upto : Nat) (es : List Entry) : Prop :=
  let m := compactThen n upto es
  let l := (S.boot i ((c.disk i).applyAll m.out)).log
  l.baseIndex = compactIndex n upto ∧
    l.baseTerm = logTermAt n.log (compactIndex n upto) ∧ l.entries = m.log.entries

theorem boot_log_of_snap {i : Nat} {d : Disk} {s : SnapFile} (hSnap : d.snap = some s) :
    (S.boot i d).log.baseIndex = s.baseIndex ∧ (S.boot i d).log.baseTerm = s.baseTerm ∧
      (S.boot i d).log.entries = recoverEntries d.log s.baseIndex s.baseOffset := by
  unfold Setup.boot persistLoad
  rw [hSnap]
  exact ⟨rfl, rfl, rfl⟩

section Recovery

variable {c : Cluster} {i : Nat} {n : Node} {upto : Nat}
  (hReach : Run.Reach (Cluster.step S) StorageWorks S.init c) (hFinds : c.Finds i n)
  (hBatch : n.log.baseIndex + clCompactBatch ≤ compactIndex n upto)
include hReach hFinds hBatch

/-- Recovery in terms of the file: behind a dead prefix that does not depend on the appends
stand the survivors and the appended records, and they are read from the offset in the
snapshot. -/
theorem recovers_iff :
    ∃ dead : Bytes,
      (dead.length = boundaryOffset n.persist (compactIndex n upto) ↔
        OffsetValid n.log n.persist (compactIndex n upto)) ∧
      ∀ es, ∃ ps f,
        Journal dead (compactIndex n upto)
          (n.log.entries.drop (compactIndex n upto - n.log.baseIndex) ++ es) ps f ∧
        ps.wbuf = [] ∧
        (Recovers S c i n upto es ↔
          recoverEntries f (compactIndex n upto)
              (boundaryOffset n.persist (compactIndex n upto)) =
            n.log.entries.drop (compactIndex n upto - n.log.baseIndex) ++ es) := by
  obtain ⟨dead, hLen, hJournal, hLog, hIo', hOk, hSnap⟩ :=
    compact_journal (finds_kept hReach hFinds) hBatch
  refine ⟨dead, hLen, fun es => ?_⟩
  have hBase : (logCompactTo n upto).log.baseIndex = compactIndex n upto := by
    rw [hLog]
    rfl
  have hEntries : (logCompactTo n upto).log.entries =
      n.log.entries.drop (compactIndex n upto - n.log.baseIndex) := by
    rw [hLog]
    rfl
  rw [← hEntries, ← hBase] at hJournal
  obtain ⟨hSynced, hBuf, hAll, hSame⟩ := append_sync_journal es hIo' hOk hJournal
  rw [hBase, hEntries] at hSynced
  rw [hEntries] at hAll
  refine ⟨_, _, hSynced, hBuf, ?_⟩
  obtain ⟨hBootBase, hBootTerm, hBootEntries⟩ :=
    boot_log_of_snap (S := S) (i := i) (hSame.trans hSnap)
  unfold Recovers compactThen
  dsimp only
  rw [hBootBase, hBootTerm, hBootEntries, hAll]
  exact ⟨fun h => h.2.2, fun h => ⟨rfl, rfl, h⟩⟩

theorem short_of_recovers {es : List Entry} (h : Recovers S c i n upto es) :
    ∀ e ∈ n.log.entries.drop (compactIndex n upto - n.log.baseIndex) ++ es, e.Short := by
  obtain ⟨dead, -, hAll⟩ := recovers_iff hReach hFinds hBatch
  obtain ⟨ps, f, -, -, hIff⟩ := hAll es
  intro e he
  rw [← hIff.mp h, recoverEntries_eq] at he
  exact ((encRecords_parseRecords _ _ _).2 e he).2

theorem offset_of_recovers (hNone : n.log.entries.drop (compactIndex n upto - n.log.baseIndex) = [])
    (hIndex : compactIndex n upto + 1 < 2 ^ 64)
    (h₀ : Recovers S c i n upto [⟨0, 0, []⟩]) (h₁ : Recovers S c i n upto [⟨1, 0, []⟩]) :
    OffsetValid n.log n.persist (compactIndex n upto) := by
  obtain ⟨dead, hLen, hAll⟩ := recovers_iff hReach hFinds hBatch
  rw [hNone] at hAll
  -- each record is a prefix of what the loader sees
  have hSeen : ∀ t, Recovers S c i n upto [⟨t, 0, []⟩] → ∃ k,
      encRecord (compactIndex n upto + 1) ⟨t, 0, []⟩ <+:
        (dead ++ encRecord (compactIndex n upto + 1) ⟨t, 0, []⟩ ++ replicate k 0).drop
          (boundaryOffset n.persist (compactIndex n upto)) := by
    intro t ht
    obtain ⟨ps, f, hJournal, hBuf, hIff⟩ := hAll [⟨t, 0, []⟩]
    obtain ⟨k, hContent⟩ := hJournal.content_eq hBuf
    refine ⟨k, ?_⟩
    have hFound := hIff.mp ht
    rw [recoverEntries_eq] at hFound
    obtain ⟨⟨rest, hRest⟩, -⟩ := encRecords_parseRecords (f.size + 1)
      (compactIndex n upto + 1) (f.content.drop (boundaryOffset n.persist (compactIndex n upto)))
    rw [hFound, hContent] at hRest
    simp only [nil_append, encRecords, append_nil] at hRest
    rw [hRest]
    exact prefix_append _ _
  obtain ⟨k₀, hk₀⟩ := hSeen 0 h₀
  obtain ⟨k₁, hk₁⟩ := hSeen 1 h₁
  exact hLen.mp (record_offset_eq (Nat.succ_pos _) hIndex hk₀ hk₁)

end Recovery

/-- **Appends after a compaction are recovered, whatever they are, exactly when the offset
cell the compaction read was valid and no surviving record is over-long; an over-long record
among the appended ones is never recovered.** The file of the boundary is accepted as long as its
topology records have fewer than 2^32 bytes. -/
theorem compaction_recovery_iff {c : Cluster} {i : Nat} {n : Node} {upto : Nat}
    (hReach : Run.Reach (Cluster.step S) StorageWorks S.init c) (hFinds : c.Finds i n)
    (hBatch : n.log.baseIndex + clCompactBatch ≤ compactIndex n upto)
    (hLast : compactIndex n upto ≤ n.log.lastIndex) (hTyped : ∀ e ∈ n.log.entries, e.Typed)
    (hIndex : n.log.lastIndex + 3 < 2 ^ 64) (hTopo : (topoBytes n.applied.topo).length < 2 ^ 32) :
    snapshotTopo (boundarySnap n (compactIndex n upto)).bytes = some (topoBytes n.applied.topo) ∧
    ((∀ es, (∀ e ∈ es, e.Typed ∧ e.Short) → n.log.lastIndex + es.length + 2 < 2 ^ 64 →
        Recovers S c i n upto es) ↔
      OffsetValid n.log n.persist (compactIndex n upto) ∧
        ∀ e ∈ n.log.entries.drop (compactIndex n upto - n.log.baseIndex), e.Short) ∧
    ∀ es, (∃ e ∈ es, ¬ e.Short) → ¬ Recovers S c i n upto es := by
  refine ⟨snapshotTopo_bytes hTopo, ⟨fun hAll => ?_, ?_⟩, ?_⟩
  · refine ⟨?_, ?_⟩
    · by_cases hInside : compactIndex n upto < n.log.lastIndex
      · exact .inl hInside
      · -- nothing survives: one appended record tells where the loader reads
        have hNone : n.log.entries.drop (compactIndex n upto - n.log.baseIndex) = [] := by
          rw [drop_eq_nil_iff]
          unfold Log.lastIndex at hInside
          omega
        have hOne : ∀ t, t < 2 → Recovers S c i n upto [⟨t, 0, []⟩] := by
          intro t ht
          refine hAll _ (fun e he => ?_) (by simpa using hIndex)
          rw [mem_singleton.mp he]
          exact ⟨⟨show t < 2 ^ 64 by omega, Nat.two_pow_pos 32, Nat.two_pow_pos 32⟩,
            Nat.zero_le _⟩
        exact offset_of_recovers hReach hFinds hBatch hNone (by omega) (hOne 0 (by decide))
          (hOne 1 (by decide))
    · have hEmpty := hAll [] (fun e he => by cases he) (by simp; omega)
      have hShort := short_of_recovers hReach hFinds hBatch hEmpty
      rwa [append_nil] at hShort
  · rintro ⟨hValid, hShort⟩ es hEs hCount
    obtain ⟨dead, hLen, hJournals⟩ := recovers_iff hReach hFinds hBatch
    obtain ⟨ps, f, hJournal, hBuf, hIff⟩ := hJournals es
    rw [hIff, ← hLen.mpr hValid]
    have hTypedAll : ∀ e ∈ n.log.entries.drop (compactIndex n upto - n.log.baseIndex) ++ es,
        e.Typed := by
      intro e he
      rcases mem_append.mp he with he | he
      · exact hTyped e (mem_of_mem_drop he)
      · exact (hEs e he).1
    have hFits : compactIndex n upto +
        (n.log.entries.drop (compactIndex n upto - n.log.baseIndex) ++ es).length + 1 < 2 ^ 64 := by
      rw [length_append, length_drop]
      unfold Log.lastIndex at hCount hLast
      omega
    rw [hJournal.recover hBuf hTypedAll hFits, takeWhile_eq_self_iff]
    intro e he
    rcases mem_append.mp he with he | he
    · simpa using hShort e he
    · simpa using (hEs e he).2
  · rintro es ⟨e, he, hLong⟩ hRecovers
    exact hLong (short_of_recovers hReach hFinds hBatch hRecovers e (mem_append_right _ he))

/-! ## A single node with a long log

A node alone in its cluster, without durable commits, elects itself; then as many no-ops as
one likes are proposed and drained. The offset array has then grown by doubling, and no
cell behind the last record was ever written. -/

/-- An offset array in fresh memory, of which the first `k` cells were written. -/
structure Fresh (ps : Persist) (k : Nat) : Prop where
  base : ps.baseIndex = 0
  heap : ps.heap = fun _ => 0
  width : 64 ∣ ps.offsets.length
  blank : ∀ x ∈ ps.offsets.drop k, x = 0

theorem dvd_growCap {d need fuel cap : Nat} (h : d ∣ cap) : d ∣ growCap need fuel cap := by
  induction fuel generalizing cap with
  | zero => exact h
  | succ fuel ih =>
    unfold growCap
    split
    · exact ih (h.mul_left 2)
    · exact h

theorem Fresh.offEnsure {ps : Persist} {k : Nat} (h : Fresh ps k) (need : Nat) :
    Fresh (offEnsure ps need) k := by
  unfold BeaverMQ.offEnsure
  dsimp only
  split
  · exact h
  have hCap : 64 ∣ if ps.offsets.length = 0 then 64 else ps.offsets.length := by
    split
    · exact dvd_rfl
    · exact h.width
  refine ⟨h.base, h.heap, ?_, ?_⟩
  · rw [length_append, length_map, length_range]
    exact Nat.dvd_add h.width (Nat.dvd_sub (dvd_growCap hCap) h.width)
  · intro x hx
    rw [drop_append, mem_append] at hx
    rcases hx with hx | hx
    · exact h.blank x hx
    · obtain ⟨j, -, rfl⟩ := mem_map.mp (mem_of_mem_drop hx)
      rw [h.heap]

theorem Fresh.append {ps : Persist} {k : Nat} (h : Fresh ps k) (e : Entry) :
    Fresh (persistAppend ps (k + 1) e) (k + 1) := by
  have hGrown := h.offEnsure (k + 1 - ps.baseIndex)
  unfold persistAppend
  generalize BeaverMQ.offEnsure ps (k + 1 - ps.baseIndex) = ps' at hGrown
  refine ⟨hGrown.base, hGrown.heap, ?_, ?_⟩
  · rw [length_set]
    exact hGrown.width
  · dsimp only
    rw [hGrown.base, drop_set_of_lt (by omega)]
    intro x hx
    rw [← drop_drop] at hx
    exact hGrown.blank x (mem_of_mem_drop hx)

def noopEntry : Entry := ⟨1, ClOp.noop.code, []⟩

/-- The single leader with `k` entries applied. -/
structure Solo (n : Node) (k : Nat) : Prop where
  cfg : n.cfg = { selfId := 0, nnodes := 1, durableCommit := false }
  io : n.io = {}
  role : n.role = .leader
  term : n.term = 1
  base : n.log.baseIndex = 0
  commit : n.log.commitIndex = k
  applied : n.log.appliedIndex = k
  entries : ∀ e ∈ n.log.entries, e.term = 1 ∧ e.Typed ∧ e.Short
  queues : n.applied.broker.queues = ∅
  topo : n.applied.topo = [⟨ClOp.addVhost.code, wrStr slashVhost⟩]
  cells : Fresh n.persist n.log.entries.length
  inbox : n.fwd.inbox = []

variable {n : Node} {k : Nat}

theorem applyNext_noop (hAt : logAt n.log (n.log.appliedIndex + 1) = some noopEntry) :
    applyNext n = { n with
      log := { n.log with appliedIndex := n.log.appliedIndex + 1 }
      history := n.history ++ [(n.log.appliedIndex + 1, noopEntry)] } := by
  unfold applyNext
  dsimp only
  rw [hAt]
  rfl

/-- **A no-op is committed and applied** once it is the last entry of the log. -/
theorem Solo.advance (h : Solo n k) (hLast : n.log.lastIndex = k + 1)
    (hAt : logAt n.log (k + 1) = some noopEntry) :
    ∃ fwd history out, fwd.inbox = [] ∧ advanceCommit n = compactPayloads { n with
      log := { n.log with commitIndex := k + 1, appliedIndex := k + 1 }
      fwd, history, out } n.log.durableIndex := by
  have hPeers : n.cfg.peerIds = [] := by
    rw [h.cfg]
    rfl
  -- the only vote is the node's own last index
  have hQuorum : quorumIndex n = k + 1 := by
    unfold quorumIndex commitVotes
    rw [hPeers, h.cfg, hLast]
    rfl
  have hTerm : logTermAt n.log (k + 1) = n.term := by
    unfold logTermAt
    rw [h.base, if_neg (by omega), hAt]
    exact h.term.symm
  have hMore : k + 1 - n.log.appliedIndex = 1 := by
    rw [h.applied]
    omega
  unfold advanceCommit applyCommitted
  dsimp only
  rw [hQuorum, if_pos ⟨by rw [h.commit]; omega, hTerm⟩, hMore]
  set v : Node := { n with log := { n.log with commitIndex := k + 1 } } with hv
  have hApplied : v.log.appliedIndex = k := h.applied
  have hApply : applyLoop 1 v = _ := applyNext_noop (by rw [hApplied]; exact hAt)
  rw [hApplied] at hApply
  obtain ⟨statusVal, statusSeq, markedSeq, hLocal⟩ := resolveLocalFwdAcks_eq (applyLoop 1 v)
  obtain ⟨fwd, out, hResolve, hInbox⟩ := resolveFwdAcks_eq (resolveLocalFwdAcks (applyLoop 1 v))
  rw [hLocal, hApply] at hResolve hInbox
  refine ⟨fwd, n.history ++ [(k + 1, noopEntry)], out, hInbox.trans h.inbox, ?_⟩
  rw [hLocal, hApply, hResolve]
  unfold allDurableIndex
  rw [show Config.peerIds _ = [] from hPeers]
  rfl

theorem Solo.flush (h : Solo n k) (hDirty : n.logDirty = true)
    (hLast : n.log.lastIndex = k + 1) (hAt : logAt n.log (k + 1) = some noopEntry) :
    Solo (leaderFlush n) (k + 1) ∧ (leaderFlush n).log.entries = n.log.entries := by
  unfold leaderFlush
  rw [if_pos hDirty]
  obtain ⟨ps, out, hFlush, hOffsets, -, hBase, hHeap⟩ :=
    persistWriteFlush_io (n := { n with logDirty := false }) h.io
  have hCells : Fresh ps n.log.entries.length :=
    ⟨hBase.trans h.cells.base, hHeap.trans h.cells.heap, hOffsets ▸ h.cells.width,
      hOffsets ▸ h.cells.blank⟩
  have hFlushed : Solo { n with logDirty := false, persist := ps, out } k :=
    { h with cells := hCells }
  have hAlone : replicateToPeers { n with logDirty := false, persist := ps, out } =
      { n with logDirty := false, persist := ps, out } := by
    unfold replicateToPeers
    rw [h.cfg]
    rfl
  obtain ⟨fwd, history, out', hInbox, hEq⟩ := hFlushed.advance hLast hAt
  rw [hFlush, hAlone, hEq]
  have hFlow : ∀ m : Node, ∃ throttle, leaderUpdateFlow m = { m with throttle } := by
    intro m
    unfold leaderUpdateFlow
    dsimp only
    split
    · exact ⟨_, rfl⟩
    · split <;> exact ⟨_, rfl⟩
  obtain ⟨throttle, hFlow⟩ := hFlow (compactPayloads _ _)
  rw [hFlow]
  exact ⟨{ h with commit := rfl, applied := rfl, cells := hCells, inbox := hInbox }, rfl⟩

/-- **A proposed no-op** is appended, committed and applied when the inbox is drained. -/
theorem Solo.drain (h : Solo n n.log.entries.length) (fwd : Forwarding) {seq : Nat}
    (hInbox : fwd.inbox = [⟨ClOp.noop.code, [], seq⟩]) :
    Solo (drainInbox { n with fwd }) (n.log.entries.length + 1) ∧
      (drainInbox { n with fwd }).log.entries = n.log.entries ++ [noopEntry] := by
  have hNext : n.log.lastIndex + 1 = n.log.entries.length + 1 := by
    unfold Log.lastIndex
    rw [h.base, Nat.zero_add]
  have hAppend : ∃ fwd', drainInbox { n with fwd } = leaderFlush { n with
      fwd := fwd', logDirty := true
      log := { n.log with entries := n.log.entries ++ [noopEntry] }
      persist := persistAppend n.persist (n.log.entries.length + 1) noopEntry } ∧
      fwd'.inbox = [] := by
    unfold drainInbox
    dsimp only
    rw [if_neg (not_not.mpr h.role), hInbox, foldl_cons, foldl_nil]
    unfold drainOne leaderAppend logAppend pushFwdAckPending
    rw [if_pos h.role, if_pos h.role, show Node.term _ = 1 from h.term, show _ + 1 = _ from hNext]
    dsimp only
    split <;> exact ⟨_, rfl, rfl⟩
  obtain ⟨fwd', hEq, hEmpty⟩ := hAppend
  rw [hEq]
  refine Solo.flush { h with entries := ?_, cells := ?_, inbox := hEmpty } rfl ?_ ?_
  · intro e he
    rcases mem_append.mp he with he | he
    · exact h.entries e he
    · rw [mem_singleton.mp he]
      exact ⟨rfl, ⟨by decide, by decide, by decide⟩, by decide⟩
  · dsimp only
    rw [length_append]
    exact h.cells.append noopEntry
  · unfold Log.lastIndex
    dsimp only
    rw [h.base, length_append, Nat.zero_add, length_singleton]
  · unfold logAt
    dsimp only
    rw [h.base, if_neg (by omega)]
    simp

theorem reach_callback {c : Cluster} (cb : Callback) (hNodes : 0 < S.nnodes)
    (hEnabled : cb.enabled (c.node 0) = true) (hOk : (Event.own 0 cb).storageWorks = true) :
    ∃ c', Run.Reach (Cluster.step S) StorageWorks c c' ∧
      c'.node 0 = (cb.run (c.node 0)).settle := by
  have hBegin : ∃ c₁, c.begin 0 (.own cb) = some (c₁, cb.run (c.node 0)) := by
    unfold Cluster.begin
    dsimp only
    rw [if_pos hEnabled]
    exact ⟨_, rfl⟩
  obtain ⟨c₁, hBegin⟩ := hBegin
  refine ⟨(c₁.perform 0 (cb.run (c.node 0)).out).setNode 0 (cb.run (c.node 0)).settle,
    .next .refl (e := .own 0 cb) ?_ hOk, rfl⟩
  show (if 0 < S.nnodes then _ else _) = _
  rw [if_pos hNodes, hBegin]
  rfl

def soloSetup : Setup := { nnodes := 1, durableCommit := false }

/-- **A single node reaches a log of every length.** -/
theorem exists_solo (k : Nat) :
    ∃ c, Run.Reach (Cluster.step soloSetup) StorageWorks soloSetup.init c ∧
      Solo (c.node 0) (k + 2) ∧ (c.node 0).log.entries.length = k + 2 := by
  induction k with
  | zero =>
    -- elected, with its no-op; draining adds the declaration of the default vhost
    obtain ⟨c₁, hReach₁, hNode₁⟩ := reach_callback (S := soloSetup) (c := soloSetup.init)
      .electionTimeout (by decide) rfl rfl
    obtain ⟨c₂, hReach₂, hNode₂⟩ := reach_callback (S := soloSetup) (c := c₁) .drain
      (by decide) rfl rfl
    rw [hNode₁] at hNode₂
    have hEntries : (c₂.node 0).log.entries =
        [noopEntry, ⟨1, ClOp.addVhost.code, wrStr slashVhost⟩] := by
      rw [hNode₂]
      decide +kernel
    refine ⟨c₂, hReach₁.trans hReach₂, ?_, by rw [hEntries]; rfl⟩
    constructor
    case entries =>
      rw [hEntries]
      simp only [mem_cons, not_mem_nil, or_false, forall_eq_or_imp, forall_eq]
      exact ⟨⟨rfl, ⟨by decide, by decide, by decide⟩, by decide⟩,
        trivial, ⟨by decide, by decide, by decide⟩, by decide⟩
    case cells =>
      rw [hEntries, hNode₂]
      exact ⟨rfl, rfl, by decide +kernel, by decide +kernel⟩
    case topo =>
      rw [hNode₂]
      decide +kernel
    all_goals
      rw [hNode₂]
      rfl
  | succ k ih =>
    obtain ⟨c, hReach, hSolo, hLen⟩ := ih
    obtain ⟨c₁, hReach₁, hNode₁⟩ := reach_callback (S := soloSetup) (c := c)
      (.propose ClOp.noop.code []) (by decide) rfl rfl
    obtain ⟨c₂, hReach₂, hNode₂⟩ := reach_callback (S := soloSetup) (c := c₁) .drain
      (by decide) rfl rfl
    rw [hNode₁] at hNode₂
    rw [← hLen] at hSolo
    have hOut : Solo { c.node 0 with out := [] } (c.node 0).log.entries.length := { hSolo with }
    obtain ⟨hNext, hEntries⟩ := hOut.drain (proposeInternal (c.node 0) ClOp.noop.code []).fwd
      (by unfold proposeInternal; dsimp only; rw [hSolo.inbox]; rfl)
    refine ⟨c₂, (hReach.trans hReach₁).trans hReach₂, ?_, ?_⟩
    · rw [hNode₂]
      rw [hLen] at hNext
      exact { hNext with }
    · rw [hNode₂]
      refine (congrArg length hEntries).trans ?_
      rw [length_append]
      exact congrArg (· + 1) hLen

theorem Solo.compactIndex {upto : Nat} (h : Solo n k) (hApplied : upto ≤ k) :
    compactIndex n upto = upto := by
  have hLive : brokerMinLiveClusterId n.applied.broker = none := by
    unfold brokerMinLiveClusterId
    rw [h.queues]
    rfl
  unfold BeaverMQ.compactIndex
  dsimp only
  rw [hLive, h.applied]
  exact Nat.min_eq_left hApplied

theorem Solo.not_offsetValid {d : Disk} (h : Solo n k) (hKept : Kept d n)
    (hLen : n.log.entries.length = 4097) : ¬ OffsetValid n.log n.persist 4097 := by
  obtain ⟨-, -, dead, hJournal⟩ := hKept
  have hLast : n.log.lastIndex = 4097 := by
    unfold Log.lastIndex
    rw [h.base, hLen]
  have hCells : 4097 ≤ n.persist.offsets.length := by
    rw [← hLen]
    exact hJournal.cells
  -- the array is a multiple of 64 long, so there is one cell more
  have hWide : 4097 < n.persist.offsets.length := by
    obtain ⟨m, hm⟩ := h.cells.width
    omega
  have hSize : 0 < n.persist.logSize := by
    have hEq : n.persist.logSize = dead.length + recsSize n.log.entries := hJournal.logSize_eq
    have hCount := length_le_recsSize n.log.entries
    omega
  have hOffset : boundaryOffset n.persist 4097 = 0 := by
    unfold boundaryOffset
    rw [h.cells.base, if_pos (by omega), getD_eq_getElem?_getD, getElem?_eq_getElem hWide]
    refine h.cells.blank _ ?_
    rw [hLen]
    exact mem_drop_iff_getElem.mpr ⟨0, by omega, rfl⟩
  rintro (hLess | hNoCell | hEq)
  · omega
  · rw [h.cells.base] at hNoCell
    omega
  · omega

/-- **A compaction up to the last index loses what is appended after it**: the offset in the
snapshot comes from a cell that was never written. -/
theorem compaction_loses_appends :
    ∃ c es, Run.Reach (Cluster.step soloSetup) StorageWorks soloSetup.init c ∧
      (c.node 0).log.baseIndex + clCompactBatch ≤ compactIndex (c.node 0) 4097 ∧
      compactIndex (c.node 0) 4097 = (c.node 0).log.lastIndex ∧
      (∀ e ∈ es, e.Typed ∧ e.Short) ∧ ¬ Recovers soloSetup c 0 (c.node 0) 4097 es := by
  obtain ⟨c, hReach, hSolo, hLen⟩ := exists_solo 4095
  have hIndex : compactIndex (c.node 0) 4097 = 4097 := hSolo.compactIndex (by decide)
  have hLast : (c.node 0).log.lastIndex = 4097 := by
    unfold Log.lastIndex
    rw [hSolo.base, hLen]
  have hBatch : (c.node 0).log.baseIndex + clCompactBatch ≤ compactIndex (c.node 0) 4097 := by
    rw [hIndex, hSolo.base, clCompactBatch]
    decide
  have hKept := finds_kept hReach (.idle (i := 0))
  have hNone : (c.node 0).log.entries.drop
      (compactIndex (c.node 0) 4097 - (c.node 0).log.baseIndex) = [] := by
    rw [drop_eq_nil_iff, hIndex, hSolo.base, hLen]
  have hInvalid : ¬ OffsetValid (c.node 0).log (c.node 0).persist
      (compactIndex (c.node 0) 4097) := by
    rw [hIndex]
    exact hSolo.not_offsetValid hKept hLen
  have hTyped : ∀ t, t < 2 → ∀ e ∈ [(⟨t, 0, []⟩ : Entry)], e.Typed ∧ e.Short := by
    intro t ht e he
    rw [mem_singleton.mp he]
    exact ⟨⟨show t < 2 ^ 64 by omega, Nat.two_pow_pos 32, Nat.two_pow_pos 32⟩, Nat.zero_le _⟩
  by_cases h₀ : Recovers soloSetup c 0 (c.node 0) 4097 [⟨0, 0, []⟩]
  · refine ⟨c, [⟨1, 0, []⟩], hReach, hBatch, hIndex.trans hLast.symm, hTyped 1 (by decide),
      fun h₁ => hInvalid ?_⟩
    exact offset_of_recovers hReach .idle hBatch hNone (by rw [hIndex]; decide) h₀ h₁
  · exact ⟨c, [⟨0, 0, []⟩], hReach, hBatch, hIndex.trans hLast.symm, hTyped 0 (by decide), h₀⟩

/-- The same node compacted to one index earlier recovers everything. -/
theorem compaction_recovers_tail :
    ∃ c, Run.Reach (Cluster.step soloSetup) StorageWorks soloSetup.init c ∧
      compactIndex (c.node 0) 4096 = 4096 ∧ (c.node 0).log.lastIndex = 4097 ∧
      ∀ es, (∀ e ∈ es, e.Typed ∧ e.Short) →
        (c.node 0).log.lastIndex + es.length + 2 < 2 ^ 64 →
        Recovers soloSetup c 0 (c.node 0) 4096 es := by
  obtain ⟨c, hReach, hSolo, hLen⟩ := exists_solo 4095
  have hIndex : compactIndex (c.node 0) 4096 = 4096 := hSolo.compactIndex (by decide)
  have hLast : (c.node 0).log.lastIndex = 4097 := by
    unfold Log.lastIndex
    rw [hSolo.base, hLen]
  have hFine : ∀ e ∈ (c.node 0).log.entries, e.Typed ∧ e.Short := by
    intro e he
    exact (hSolo.entries e he).2
  refine ⟨c, hReach, hIndex, hLast, (compaction_recovery_iff hReach .idle ?_ ?_
    (fun e he => (hFine e he).1) ?_ ?_).2.1.mpr ⟨.inl ?_, ?_⟩⟩
  · rw [hIndex, hSolo.base, clCompactBatch]
  · rw [hIndex, hLast]
    decide
  · rw [hLast]
    decide
  · rw [hSolo.topo]
    decide
  · rw [hIndex, hLast]
    decide
  · exact fun e he => (hFine e (mem_of_mem_drop he)).2

end BeaverMQ
