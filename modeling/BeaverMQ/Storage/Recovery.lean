import BeaverMQ.Model.Cluster
import BeaverMQ.Storage.Journal

/-!
# BeaverMQ — recovery of the WAL after a crash

A node appends, flushes and syncs, and crashes. The crash keeps what was fsynced and an
arbitrary prefix of what was written since; the rest of the preallocated region reads as
zeros. `persist_load` tells a torn record from a complete one by its length and index
only, so whether it finds a prefix of what was appended depends on the record the crash
cuts through.
-/

namespace BeaverMQ

open Bytes List

/-! ## Histories of the log file -/

inductive WalCmd
  | append (e : Entry)
  | flush
  | sync

def WalCmd.run (n : Node) : WalCmd → Node
  | .append e => logAppend n e
  | .flush => persistWriteFlush n
  | .sync => persistSync n

/-- What was appended, what reached the file, and what was synced. -/
structure WalTrace where
  all : List Entry := []
  written : List Entry := []
  synced : List Entry := []

def WalCmd.note (t : WalTrace) : WalCmd → WalTrace
  | .append e => { t with all := t.all ++ [e] }
  | .flush => { t with written := t.all }
  | .sync => { t with written := t.all, synced := t.all }

def walTrace (cmds : List WalCmd) : WalTrace := cmds.foldl WalCmd.note {}

def Setup.walRun (S : Setup) (i : Nat) (cmds : List WalCmd) : Node :=
  cmds.foldl WalCmd.run (S.boot i {})

def Setup.walDisk (S : Setup) (i : Nat) (cmds : List WalCmd) : Disk :=
  ({} : Disk).applyAll (S.walRun i cmds).out

/-- What a crash leaves of a file: its first `kept` bytes, the rest of it reading as zeros. -/
def LogFile.keep (f : LogFile) (kept : Nat) : LogFile where
  data := f.content.take kept
  size := f.size
  bound := by
    rw [length_take, LogFile.content_length]
    exact min_le_right _ _

theorem LogFile.keep_content (f : LogFile) (kept : Nat) :
    (f.keep kept).content = zeroFrom kept f.content := by
  show f.content.take kept ++ replicate (f.size - (f.content.take kept).length) 0 = _
  rw [zeroFrom, length_take, LogFile.content_length]
  congr 2
  omega

/-- The log that `persist_load` recovers after a crash that keeps `kept` bytes. -/
def Setup.walRecovered (S : Setup) (i : Nat) (cmds : List WalCmd) (kept : Nat) : Log :=
  (S.boot i { S.walDisk i cmds with log := (S.walDisk i cmds).log.keep kept }).log

/-- The file is a journal of the log, and the trace says how far. -/
structure Logged (t : WalTrace) (n : Node) (d : Disk) : Prop where
  io : n.io = {}
  ok : n.storageFailed = false
  base : n.log.baseIndex = 0
  entries : n.log.entries = t.all
  journal : Journal [] 0 t.all n.persist d.log
  pos : n.persist.writePos = recsSize t.written
  written : t.written <+: t.all
  synced : t.synced <+: t.written
  snap : d.snap = none

variable {t : WalTrace} {n : Node} {es post : List Entry} {kept : Nat}

theorem Logged.flushed {n' : Node} {d d' : Disk} (h : Logged t n d)
    (hWrote : Wrote n n' d d') (hBuf : n'.persist.wbuf = []) {synced : List Entry}
    (hSynced : synced <+: t.all) : Logged { t with written := t.all, synced := synced } n' d' := by
  obtain ⟨hIo, hOk, hBase, hEntries, hJournal, -, -, -, hSnap⟩ := h
  obtain ⟨⟨hSame, hSameBase⟩, hSameIo, hSameOk, hSameSnap, hKeeps⟩ := hWrote
  have hJournal' : Journal [] 0 t.all n'.persist d'.log := by
    rw [hBase, hEntries] at hKeeps
    exact hKeeps hJournal
  refine ⟨hSameIo.trans hIo, hSameOk.trans hOk, hSameBase.trans hBase, hSame.trans hEntries,
    hJournal', ?_, prefix_rfl, hSynced, hSameSnap.trans hSnap⟩
  -- with the buffer empty the write position is the end of the log
  have hSize := hJournal'.size
  rw [hBuf, length_nil, Nat.add_zero, hJournal'.logSize_eq] at hSize
  simpa using hSize.symm

theorem Logged.step (h : Logged t n (({} : Disk).applyAll n.out)) (cmd : WalCmd) :
    Logged (cmd.note t) (cmd.run n) (({} : Disk).applyAll (cmd.run n).out) := by
  have hPerform : ∀ {m : Node} {effs : List Effect}, m.out = n.out ++ effs →
      ({} : Disk).applyAll m.out = (({} : Disk).applyAll n.out).applyAll effs := by
    intro m effs hOut
    rw [hOut, Disk.applyAll, foldl_append]
    rfl
  cases cmd with
  | append e =>
    obtain ⟨hIo, hOk, hBase, hEntries, hJournal, hPos, hWritten, hSynced, hSnap⟩ := h
    have hLast : n.log.lastIndex + 1 = 0 + t.all.length + 1 := by
      rw [Log.lastIndex, hBase, hEntries]
    refine ⟨hIo, hOk, hBase, ?_, ?_, ?_, hWritten.trans (prefix_append _ _), hSynced, hSnap⟩
    · show n.log.entries ++ [e] = t.all ++ [e]
      rw [hEntries]
    · show Journal [] 0 (t.all ++ [e]) (persistAppend n.persist (n.log.lastIndex + 1) e) _
      rw [hLast]
      exact hJournal.append e
    · obtain ⟨cells, hEnsure, -⟩ := offEnsure_facts n.persist
        (n.log.lastIndex + 1 - n.persist.baseIndex)
      show (persistAppend n.persist (n.log.lastIndex + 1) e).writePos = _
      unfold persistAppend
      rw [hEnsure]
      exact hPos
  | flush =>
    obtain ⟨effs, hOut, hWrote⟩ := wrote_persistWriteFlush n (({} : Disk).applyAll n.out)
      (by rw [h.io])
    show Logged _ (persistWriteFlush n) (({} : Disk).applyAll (persistWriteFlush n).out)
    rw [hPerform hOut]
    exact h.flushed hWrote (persistWriteFlush_wbuf n) (h.synced.trans h.written)
  | sync =>
    obtain ⟨effs, hOut, hWrote, hBuf, -⟩ := wrote_persistSync n (({} : Disk).applyAll n.out)
      h.io h.ok
    show Logged _ (persistSync n) (({} : Disk).applyAll (persistSync n).out)
    rw [hPerform hOut]
    exact h.flushed hWrote hBuf prefix_rfl

/-- **The file holds the written part of the history, and the buffer the rest.** -/
theorem walRun_journal (S : Setup) (i : Nat) (cmds : List WalCmd) :
    Logged (walTrace cmds) (S.walRun i cmds) (S.walDisk i cmds) := by
  unfold walTrace Setup.walDisk Setup.walRun
  have hInit : Logged {} (S.boot i {}) (({} : Disk).applyAll (S.boot i {}).out) := by
    have hEmpty : (({} : Disk).applyAll (S.boot i {}).out).log.content = [] := by
      refine eq_nil_of_length_eq_zero ?_
      rw [LogFile.content_length]
      rfl
    refine ⟨rfl, rfl, rfl, rfl, ⟨rfl, rfl, Nat.le_refl _, ?_, ?_, nil_prefix⟩, rfl,
      prefix_rfl, prefix_rfl, rfl⟩
    · rw [hEmpty]
      rfl
    · rw [hEmpty]
      simp
  generalize S.boot i {} = n at hInit
  generalize ({} : WalTrace) = t at hInit
  induction cmds generalizing n t with
  | nil => exact hInit
  | cons cmd cmds ih => exact ih _ _ (hInit.step cmd)

/-! ## Where a crash cuts -/

/-- The record that a crash after `kept` bytes cuts through, if the loader gets that far, is
harmless. -/
def CutOk (es : List Entry) (kept : Nat) : Prop :=
  ∀ pre e post, es = pre ++ e :: post → (∀ x ∈ pre, x.Short) → recsSize pre < kept →
    kept < recsSize pre + recSize e → TornOk (pre.length + 1) e (kept - recsSize pre)

theorem cut_cases (h : kept ≤ recsSize es) :
    (∃ pre post, es = pre ++ post ∧ kept = recsSize pre) ∨
      ∃ pre e post, es = pre ++ e :: post ∧ recsSize pre < kept ∧
        kept < recsSize pre + recSize e := by
  induction es generalizing kept with
  | nil => exact .inl ⟨[], [], rfl, by simpa using h⟩
  | cons e es ih =>
    rw [recsSize_cons] at h
    by_cases hZero : kept = 0
    · exact .inl ⟨[], e :: es, rfl, by simpa using hZero⟩
    by_cases hIn : kept < recSize e
    · exact .inr ⟨[], e, es, rfl, by simp; omega, by simpa using hIn⟩
    rcases ih (show kept - recSize e ≤ recsSize es by omega) with ⟨pre, post, hEq, hKept⟩ |
      ⟨pre, x, post, hEq, hLow, hHigh⟩
    · exact .inl ⟨e :: pre, post, by rw [hEq, cons_append], by
        rw [recsSize_cons]; omega⟩
    · exact .inr ⟨e :: pre, x, post, by rw [hEq, cons_append], by
        rw [recsSize_cons]; omega, by rw [recsSize_cons]; omega⟩

theorem recSize_pos (e : Entry) : 0 < recSize e := by
  rw [recSize, clRecHdr]
  omega

theorem prefix_of_recsSize_le {xs ys : List Entry} (hx : xs <+: es) (hy : ys <+: es)
    (h : recsSize xs ≤ recsSize ys) : xs <+: ys := by
  rcases prefix_or_prefix_of_prefix hx hy with hxy | hyx
  · exact hxy
  obtain ⟨rest, rfl⟩ := hyx
  cases rest with
  | nil => simp
  | cons e rest =>
    rw [recsSize_append, recsSize_cons] at h
    have := recSize_pos e
    omega

/-- At most one record is torn. -/
theorem cut_unique {pre pre' post' : List Entry} {e e' : Entry}
    (h : es = pre ++ e :: post) (h' : es = pre' ++ e' :: post')
    (hLow : recsSize pre < kept) (hHigh : kept < recsSize pre + recSize e)
    (hLow' : recsSize pre' < kept) (hHigh' : kept < recsSize pre' + recSize e') :
    pre = pre' ∧ e = e' := by
  have hNot : ∀ {p q r t : List Entry} {x y : Entry}, p ++ x :: r = q ++ y :: t →
      p.length < q.length → recsSize p + recSize x ≤ recsSize q := by
    intro p q r t x y hEq hLen
    have hPrefix : p ++ [x] <+: q := by
      have h₁ : p ++ [x] <+: p ++ x :: r := ⟨r, by simp⟩
      have h₂ : q <+: p ++ x :: r := ⟨y :: t, hEq.symm⟩
      exact prefix_of_prefix_length_le h₁ h₂ (by simp; omega)
    obtain ⟨rest, rfl⟩ := hPrefix
    simp only [recsSize_append, recsSize_cons, recsSize_nil]
    omega
  have hEq : pre ++ e :: post = pre' ++ e' :: post' := h ▸ h'
  have hLen : pre.length = pre'.length := by
    rcases Nat.lt_trichotomy pre.length pre'.length with hLt | hSame | hGt
    · have := hNot hEq hLt
      omega
    · exact hSame
    · have := hNot hEq.symm hGt
      omega
  obtain ⟨rfl, hTail⟩ := append_inj hEq hLen
  exact ⟨rfl, (List.cons.inj hTail).1⟩

theorem cutOk_iff {pre : List Entry} {e : Entry} (h : es = pre ++ e :: post)
    (hLow : recsSize pre < kept) (hHigh : kept < recsSize pre + recSize e) :
    CutOk es kept ↔ ((∀ x ∈ pre, x.Short) → TornOk (pre.length + 1) e (kept - recsSize pre)) := by
  constructor
  · exact fun hCut hShort => hCut pre e post h hShort hLow hHigh
  · intro hTorn pre' e' post' h' hShort' hLow' hHigh'
    obtain ⟨rfl, rfl⟩ := cut_unique h h' hLow hHigh hLow' hHigh'
    exact hTorn hShort'

theorem cutOk_of_boundary {pre : List Entry} (h : es = pre ++ post) : CutOk es (recsSize pre) := by
  intro pre' e post' h' _ hLow hHigh
  have hPre : pre <+: es := ⟨post, h.symm⟩
  have hPre' : pre' <+: es := ⟨e :: post', h'.symm⟩
  have hMore : pre' ++ [e] <+: es := ⟨post', by simp [h']⟩
  have hLess : pre <+: pre' := by
    have hSmall : pre <+: pre' ++ [e] := prefix_of_recsSize_le hPre hMore (by
      simp only [recsSize_append, recsSize_cons, recsSize_nil]
      omega)
    rcases prefix_concat_iff.mp hSmall with hSame | hIn
    · rw [hSame] at hHigh
      simp only [recsSize_append, recsSize_cons, recsSize_nil] at hHigh
      omega
    · exact hIn
  obtain ⟨rest, rfl⟩ := hLess
  rw [recsSize_append] at hLow
  omega

/-! ## Recovery -/

/-- What the crash leaves in the file: the written records, zeros from byte `kept` on. -/
theorem Logged.image {d : Disk} (h : Logged t n d) (hKept : kept ≤ recsSize t.written) :
    ∃ k, (d.log.keep kept).content = zeroFrom kept (encRecords 1 t.written) ++ replicate k 0 := by
  obtain ⟨rest, hRest⟩ := h.written
  have hBytes := h.journal.bytes
  rw [nil_append, ← hRest, encRecords_append, h.pos] at hBytes
  have hFits := h.journal.fits
  rw [h.pos] at hFits
  have hWritten : d.log.content.take (recsSize t.written) = encRecords (0 + 1) t.written := by
    refine (append_inj hBytes ?_).1
    rw [length_take, LogFile.content_length, encRecords_length]
    omega
  have hZeros : d.log.content.drop (recsSize t.written) =
      replicate (d.log.content.drop (recsSize t.written)).length 0 := by
    rw [eq_replicate_iff]
    exact ⟨rfl, fun b hb => h.journal.zeros b (by rw [h.pos]; exact hb)⟩
  refine ⟨(d.log.content.drop (recsSize t.written)).length, ?_⟩
  rw [LogFile.keep_content]
  conv_lhs => rw [← take_append_drop (recsSize t.written) d.log.content, hWritten,
    zeroFrom_append, encRecords_length, Nat.sub_eq_zero_of_le hKept, zeroFrom_zero]

theorem Setup.walRecovered_eq (S : Setup) (i : Nat) (cmds : List WalCmd) (kept : Nat) :
    (S.walRecovered i cmds kept).baseIndex = 0 ∧
      (S.walRecovered i cmds kept).entries =
        recoverEntries ((S.walDisk i cmds).log.keep kept) 0 0 := by
  have hSnap := (walRun_journal S i cmds).snap
  unfold Setup.walRecovered Setup.boot persistLoad
  rw [show ({ S.walDisk i cmds with log := (S.walDisk i cmds).log.keep kept } : Disk).snap =
    none from hSnap]
  exact ⟨rfl, rfl⟩

section Recovery

variable {f : LogFile} {pre : List Entry} (hTyped : ∀ x ∈ pre, x.Typed)
include hTyped

theorem recover_boundary {k : Nat} (hCount : pre.length + 1 < 2 ^ 64)
    (hContent : f.content = encRecords 1 pre ++ replicate k 0) :
    recoverEntries f 0 0 = pre.takeWhile (fun x => decide x.Short) := by
  have hAll : f.content = [] ++ encRecords (0 + 1) pre ++ replicate k 0 := hContent
  exact recover_written hTyped (by omega) hAll

/-- A torn record ends the recovery unless it parses by chance. -/
theorem recover_torn {e : Entry} {j k : Nat} (hCount : pre.length + 2 < 2 ^ 64)
    (hContent : f.content = encRecords 1 pre ++
      (zeroFrom j (encRecord (pre.length + 1) e) ++ replicate k 0)) :
    recoverEntries f 0 0 =
      if ∀ x ∈ pre, x.Short then
        pre ++ match parseRecord (pre.length + 1)
            (zeroFrom j (encRecord (pre.length + 1) e) ++ replicate k 0) with
          | none => []
          | some x => x :: parseRecords (f.size - pre.length) (pre.length + 2)
              ((zeroFrom j (encRecord (pre.length + 1) e) ++ replicate k 0).drop (recSize x))
      else pre.takeWhile (fun x => decide x.Short) := by
  have hFuel : pre.length ≤ f.size := by
    have hLen := congrArg length hContent
    rw [LogFile.content_length, length_append, encRecords_length] at hLen
    have := length_le_recsSize pre
    omega
  rw [recoverEntries_eq, hContent, drop_zero,
    parseRecords_encRecords hTyped (by omega) _ (by omega)]
  split
  · congr 1
    obtain ⟨fuel, hEq⟩ : ∃ fuel, f.size + 1 - pre.length = fuel + 1 :=
      ⟨f.size - pre.length, by omega⟩
    rw [hEq, show f.size - pre.length = fuel by omega, Nat.add_comm (0 + 1), Nat.zero_add]
    rfl
  · rfl

end Recovery

/-- The short entries at the front of a list reach as far as a prefix of it exactly when that
prefix is short throughout. -/
theorem prefix_takeWhile_iff {xs ys : List Entry} (h : xs <+: ys) :
    xs <+: ys.takeWhile (fun x => decide x.Short) ↔ ∀ x ∈ xs, x.Short := by
  constructor
  · intro hPrefix x hx
    have hMem := hPrefix.subset hx
    simpa using mem_takeWhile_imp hMem
  · intro hShort
    obtain ⟨rest, rfl⟩ := h
    rw [takeWhile_append_of_pos (fun x hx => by simpa using hShort x hx)]
    exact prefix_append _ _

/-- What recovery should give: a prefix of what was appended, with all that was fsynced. -/
def PrefixCorrect (t : WalTrace) (l : Log) : Prop :=
  l.baseIndex = 0 ∧ l.entries <+: t.all ∧ t.synced <+: l.entries

instance (t : WalTrace) (l : Log) : Decidable (PrefixCorrect t l) :=
  inferInstanceAs (Decidable (_ ∧ _ ∧ _))

/-- **Recovery after a crash is prefix-correct exactly when every fsynced entry is at most
`CLUSTER_MAX_PAYLOAD` long and the record that the crash cuts through is harmless.** -/
theorem wal_recovery_iff (S : Setup) (i : Nat) (cmds : List WalCmd) (kept : Nat)
    (hTyped : ∀ e ∈ (walTrace cmds).all, e.Typed) (hCount : (walTrace cmds).all.length + 2 < 2 ^ 64)
    (hSynced : recsSize (walTrace cmds).synced ≤ kept)
    (hWritten : kept ≤ recsSize (walTrace cmds).written) :
    PrefixCorrect (walTrace cmds) (S.walRecovered i cmds kept) ↔
      (∀ e ∈ (walTrace cmds).synced, e.Short) ∧ CutOk (walTrace cmds).written kept := by
  have hLogged := walRun_journal S i cmds
  obtain ⟨k, hImage⟩ := hLogged.image hWritten
  obtain ⟨hBase, hEntries⟩ := S.walRecovered_eq i cmds kept
  unfold PrefixCorrect
  rw [hBase, hEntries]
  generalize (S.walDisk i cmds).log.keep kept = f at hImage
  have hIn := hLogged.written
  have hSub := hLogged.synced
  clear hLogged hBase hEntries
  generalize walTrace cmds = t at *
  have hInTyped : ∀ x ∈ t.written, x.Typed := fun x hx => hTyped x (hIn.subset hx)
  have hInLen := hIn.length_le
  rcases cut_cases hWritten with ⟨pre, post, hSplit, hKept⟩ | ⟨pre, e, post, hSplit, hLow, hHigh⟩
  · -- between two records: the complete ones are found
    have hPre : pre <+: t.written := ⟨post, hSplit.symm⟩
    have hLen := hPre.length_le
    have hTail : t.synced <+: pre := prefix_of_recsSize_le hSub hPre (hKept ▸ hSynced)
    have hContent : f.content = encRecords 1 pre ++
        replicate ((encRecords (1 + pre.length) post).length + k) 0 := by
      rw [hImage, hSplit, encRecords_append, zeroFrom_append, encRecords_length, hKept,
        Nat.sub_self, zeroFrom_zero, zeroFrom_of_le (by rw [encRecords_length]),
        append_assoc, ← replicate_add]
    have hRecover := recover_boundary (fun x hx => hInTyped x (hPre.subset hx)) (by omega) hContent
    rw [hRecover, prefix_takeWhile_iff hTail, hKept]
    constructor
    · exact fun h => ⟨h.2.2, cutOk_of_boundary hSplit⟩
    · exact fun h => ⟨rfl, ((List.takeWhile_prefix _).trans hPre).trans hIn, h.1⟩
  · -- inside a record
    have hPre : pre <+: t.written := ⟨e :: post, hSplit.symm⟩
    have hPreTyped : ∀ x ∈ pre, x.Typed := fun x hx => hInTyped x (hPre.subset hx)
    have hLen : pre.length + 1 ≤ t.written.length := by simp [hSplit]
    have heTyped : e.Typed := hInTyped e (by simp [hSplit])
    have hTail : t.synced <+: pre := by
      have hMore : pre ++ [e] <+: t.written := ⟨post, by simp [hSplit]⟩
      have hSmall : t.synced <+: pre ++ [e] := prefix_of_recsSize_le hSub hMore (by
        simp only [recsSize_append, recsSize_cons, recsSize_nil]
        omega)
      rcases prefix_concat_iff.mp hSmall with hSame | hInside
      · rw [hSame] at hSynced
        simp only [recsSize_append, recsSize_cons, recsSize_nil] at hSynced
        omega
      · exact hInside
    set j := kept - recsSize pre with hj
    have hContent : f.content = encRecords 1 pre ++ (zeroFrom j (encRecord (pre.length + 1) e) ++
        replicate ((encRecords (pre.length + 2) post).length + k) 0) := by
      have hPast : j - recSize e = 0 := by omega
      have hWhole : zeroFrom kept (encRecords 1 pre) = encRecords 1 pre :=
        zeroFrom_of_le (by rw [encRecords_length]; omega)
      rw [hImage, hSplit, encRecords_append, zeroFrom_append, encRecords_length, hWhole, ← hj,
        encRecords, zeroFrom_append, encRecord_length, hPast, zeroFrom_zero,
        Nat.add_comm 1 pre.length, append_assoc, append_assoc, replicate_add]
    have hRecover := recover_torn hPreTyped (by omega) hContent
    generalize (encRecords (pre.length + 2) post).length + k = m at hRecover
    have hIff := parseRecord_torn_iff (k := m) (j := j) heTyped (Nat.succ_pos pre.length)
      (by omega)
    rw [cutOk_iff hSplit hLow hHigh, ← hIff]
    by_cases hShort : ∀ x ∈ pre, x.Short
    · rw [if_pos hShort] at hRecover
      rw [hRecover]
      have hAllSynced : ∀ x ∈ t.synced, x.Short := fun x hx => hShort x (hTail.subset hx)
      obtain ⟨more, hMore⟩ := hIn
      have hAll : t.all = pre ++ e :: (post ++ more) := by
        rw [← hMore, hSplit]
        simp
      constructor
      · -- what was read in the place of the torn record is that record
        rintro ⟨-, hPrefix, -⟩
        refine ⟨hAllSynced, fun _ x hx => ?_⟩
        rw [hx, hAll, prefix_append_right_inj] at hPrefix
        obtain ⟨rest, hRest⟩ := hPrefix
        exact (List.cons.inj hRest).1
      · rintro ⟨-, hTorn⟩
        refine ⟨rfl, ?_, hTail.trans (prefix_append _ _)⟩
        rw [hAll, prefix_append_right_inj]
        cases hParse : parseRecord (pre.length + 1)
            (zeroFrom j (encRecord (pre.length + 1) e) ++ replicate m 0) with
        | none => exact nil_prefix
        | some x =>
          obtain rfl := hTorn hShort x hParse
          have hDrop : (zeroFrom j (encRecord (pre.length + 1) x) ++
              replicate m 0).drop (recSize x) = replicate m 0 := by
            have hFull : (zeroFrom j (encRecord (pre.length + 1) x)).length = recSize x := by
              rw [zeroFrom_length, encRecord_length]
            rw [← hFull, drop_left]
          dsimp only
          rw [hDrop, parseRecords_zeros (by omega)]
          exact ⟨post ++ more, rfl⟩
    · rw [if_neg hShort] at hRecover
      rw [hRecover, prefix_takeWhile_iff hTail]
      constructor
      · exact fun h => ⟨h.2.2, fun hAll => absurd hAll hShort⟩
      · exact fun h => ⟨rfl, ((List.takeWhile_prefix _).trans hPre).trans hIn, h.1⟩

/-- A crash inside the index of the second record leaves the first. -/
theorem wal_recovery_cut_index :
    PrefixCorrect (walTrace [.append ⟨1, 1, [7]⟩, .sync, .append ⟨1, 1, [5]⟩, .flush])
      (({ nnodes := 3 } : Setup).walRecovered 0
        [.append ⟨1, 1, [7]⟩, .sync, .append ⟨1, 1, [5]⟩, .flush] 35) := by
  refine (wal_recovery_iff { nnodes := 3 } 0
    [.append ⟨1, 1, [7]⟩, .sync, .append ⟨1, 1, [5]⟩, .flush] 35 ?_ (by decide) (by decide)
    (by decide)).mpr ⟨by decide, ?_⟩
  · intro e he
    have hMem : e ∈ [(⟨1, 1, [7]⟩ : Entry), ⟨1, 1, [5]⟩] := he
    rcases mem_pair.mp hMem with rfl | rfl <;> exact ⟨by decide, by decide, by decide⟩
  · refine (cutOk_iff (show _ = [(⟨1, 1, [7]⟩ : Entry)] ++ ⟨1, 1, [5]⟩ :: [] from rfl) (by decide)
      (by decide)).mpr fun _ => by decide

/-- A crash that keeps the header of the only record and loses its payload: the loader finds
a complete record with another payload. -/
theorem wal_recovery_torn_payload :
    ¬ PrefixCorrect (walTrace [.append ⟨1, 1, [1]⟩, .flush])
      (({ nnodes := 3 } : Setup).walRecovered 0 [.append ⟨1, 1, [1]⟩, .flush] 24) := by
  decide +kernel

end BeaverMQ
