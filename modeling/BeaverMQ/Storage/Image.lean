import BeaverMQ.Consensus.Handlers

/-!
# BeaverMQ — the image of the log on disk

What the file bytes from the base offset to the write position, followed by the write
buffer, decode to, and what the offset cells hold, under any mix of the storage steps of a
node. A failed write or `fsync` raises `storage_failed`, after which nothing is claimed; a failed
`ftruncate` is ignored by the code, which is harmless for a snapshot install and not for a
truncation.
-/

namespace BeaverMQ

open Bytes List LogFile

/-! ## Decoding a stretch of records -/

/-- The record at the front of a buffer: its index, the entry and the bytes behind it. -/
def decodeRecord (bs : Bytes) : Option (Nat × Entry × Bytes) :=
  let len := beVal ((bs.drop 20).take 4)
  if bs.length < clRecHdr + len then none
  else some (beVal ((bs.drop 8).take 8),
    { term := beVal (bs.take 8), op := beVal ((bs.drop 16).take 4)
      payload := (bs.drop clRecHdr).take len },
    bs.drop (clRecHdr + len))

def decodeRecords : Nat → Bytes → List (Nat × Entry)
  | 0, _ => []
  | fuel + 1, bs =>
    match decodeRecord bs with
    | none => []
    | some (index, e, rest) => (index, e) :: decodeRecords fuel rest

/-- Entries with their indexes, the first at `index`. -/
def indexed : Nat → List Entry → List (Nat × Entry)
  | _, [] => []
  | index, e :: es => (index, e) :: indexed (index + 1) es

theorem decodeRecord_encRecord {index : Nat} {e : Entry} (hIndex : index < 2 ^ 64)
    (hTyped : e.Typed) (rest : Bytes) :
    decodeRecord (encRecord index e ++ rest) = some (index, e, rest) := by
  have hTerm : beVal (beBytes 8 e.term) = e.term := beVal_beBytes_of_lt hTyped.term
  have hOp : beVal (beBytes 4 e.op) = e.op := beVal_beBytes_of_lt hTyped.op
  have hLen : beVal (beBytes 4 e.len) = e.len := beVal_beBytes_of_lt hTyped.len
  have hPayload : (e.payload ++ rest).take e.len = e.payload := take_left' rfl
  have hRest : (e.payload ++ rest).drop e.len = rest := drop_left' rfl
  have hLong : ¬ clRecHdr + (e.payload ++ rest).length < clRecHdr + e.len := by
    rw [length_append, Entry.len]
    omega
  obtain ⟨hT, hI, hO, hL, hTail, hAll⟩ := header_fields (e.payload ++ rest)
    (beBytes_length 8 e.term) (beBytes_length 8 index) (beBytes_length 4 e.op)
    (beBytes_length 4 e.len)
  unfold decodeRecord encRecord
  rw [append_assoc _ e.payload rest]
  dsimp only
  rw [hT, hI, hO, hL, hLen, hAll, if_neg hLong, ← drop_drop, hTail, hPayload, hRest, hTerm,
    hOp, beVal_beBytes_of_lt hIndex]

theorem decodeRecords_encRecords {index fuel : Nat} {es : List Entry}
    (hTyped : ∀ e ∈ es, e.Typed) (hIndex : index + es.length ≤ 2 ^ 64) (hFuel : es.length ≤ fuel) :
    decodeRecords fuel (encRecords index es) = indexed index es := by
  induction es generalizing index fuel with
  | nil =>
    cases fuel with
    | zero => rfl
    | succ fuel => simp [encRecords, indexed, decodeRecords, decodeRecord, clRecHdr]
  | cons e es ih =>
    rw [length_cons] at hIndex hFuel
    obtain ⟨fuel, rfl⟩ : ∃ k, fuel = k + 1 := ⟨fuel - 1, by omega⟩
    rw [encRecords, decodeRecords,
      decodeRecord_encRecord (by omega) (hTyped e mem_cons_self)]
    dsimp only
    rw [ih (fun x hx => hTyped x (mem_cons_of_mem _ hx)) (by omega) (by omega)]
    rfl

/-! ## The image -/

theorem Journal.congr {dead : Bytes} {base : Nat} {es : List Entry} {ps : Persist}
    {f g : LogFile} (h : Journal dead base es ps f) (hEq : g.content = f.content) :
    Journal dead base es ps g := by
  have hSize : g.size = f.size := by
    rw [← content_length, hEq, content_length]
  refine ⟨h.baseEq, h.size, by rw [hSize]; exact h.fits, ?_, ?_, h.offsets⟩
  · rw [hEq]
    exact h.bytes
  · rw [hEq]
    exact h.zeros

/-- The bytes before the write position are a journal whose dead prefix ends at the base
offset; what stands behind the write position does not matter. -/
def Image (base : Nat) (es : List Entry) (ps : Persist) (f : LogFile) : Prop :=
  ∃ dead : Bytes, dead.length = ps.baseOffset ∧ dead.length ≤ ps.writePos ∧
    ps.writePos ≤ f.size ∧ Journal dead base es ps (f.truncate ps.writePos)

theorem LogFile.truncate_content_le (f : LogFile) {size : Nat} (h : size ≤ f.size) :
    (f.truncate size).content = f.content.take size := by
  rw [truncate_content, Nat.sub_eq_zero_of_le h, replicate_zero, append_nil]

section Operations

variable {base : Nat} {es : List Entry} {ps : Persist} {f : LogFile}

theorem Image.push (h : Image base es ps f) (new : List Entry) :
    Image base (es ++ new) (pushRecords ps (base + es.length + 1) new) f := by
  obtain ⟨dead, hDead, hIn, hFits, hJournal⟩ := h
  -- buffering moves neither the base offset nor the write position
  have hSame : ∀ (ps : Persist) (index : Nat) (new : List Entry),
      (pushRecords ps index new).baseOffset = ps.baseOffset ∧
        (pushRecords ps index new).writePos = ps.writePos := by
    intro ps index new
    induction new generalizing ps index with
    | nil => exact ⟨rfl, rfl⟩
    | cons e new ih =>
      obtain ⟨hOff, hPos⟩ := ih (persistAppend ps index e) (index + 1)
      obtain ⟨cells, hEnsure, -⟩ := offEnsure_facts ps (index - ps.baseIndex)
      have hOne : (persistAppend ps index e).baseOffset = ps.baseOffset ∧
          (persistAppend ps index e).writePos = ps.writePos := by
        unfold persistAppend
        rw [hEnsure]
        exact ⟨rfl, rfl⟩
      exact ⟨hOff.trans hOne.1, hPos.trans hOne.2⟩
  obtain ⟨hOff, hPos⟩ := hSame ps (base + es.length + 1) new
  refine ⟨dead, hDead.trans hOff.symm, hPos ▸ hIn, hPos ▸ hFits, ?_⟩
  rw [hPos]
  exact hJournal.push new

theorem Image.resize (h : Image base es ps f) (size : Nat) :
    Image base es { ps with allocSize := size } f := by
  obtain ⟨dead, hDead, hIn, hFits, hBase, hSize, hEnd, hBytes, hZeros, hOffsets⟩ := h
  exact ⟨dead, hDead, hIn, hFits, hBase, hSize, hEnd, hBytes, hZeros, hOffsets⟩

theorem Image.mark (h : Image base es ps f) (dirty : Bool) : Image base es { ps with dirty } f := by
  obtain ⟨dead, hDead, hIn, hFits, hBase, hSize, hEnd, hBytes, hZeros, hOffsets⟩ := h
  exact ⟨dead, hDead, hIn, hFits, hBase, hSize, hEnd, hBytes, hZeros, hOffsets⟩

theorem Image.reserve (h : Image base es ps f) (target : Nat) :
    Image base es { ps with allocSize := target } (f.falloc target) := by
  obtain ⟨dead, hDead, hIn, hFits, hJournal⟩ := h.resize target
  have hGrown : ps.writePos ≤ (f.falloc target).size := hFits.trans (le_max_left _ _)
  refine ⟨dead, hDead, hIn, hGrown, hJournal.congr ?_⟩
  rw [truncate_content_le _ hGrown, truncate_content_le _ hFits,
    falloc_content, take_append_of_le_length
      (by rw [content_length]; exact hFits)]

theorem Image.flush (h : Image base es ps f) :
    Image base es { ps with writePos := ps.writePos + ps.wbuf.length, wbuf := [] }
      (f.write ps.writePos ps.wbuf) := by
  obtain ⟨dead, hDead, hIn, hFits, hJournal⟩ := h
  have hGrown : ps.writePos + ps.wbuf.length ≤ (f.write ps.writePos ps.wbuf).size :=
    le_max_right _ _
  refine ⟨dead, hDead, hIn.trans (Nat.le_add_right _ _), hGrown, hJournal.flush.congr ?_⟩
  have hTake : (f.content.take ps.writePos).length = ps.writePos := by
    rw [length_take, content_length]
    omega
  have hShort : (f.truncate ps.writePos).content.drop (ps.writePos + ps.wbuf.length) = [] := by
    rw [drop_eq_nil_iff, content_length]
    exact Nat.le_add_right _ _
  rw [truncate_content_le _ hGrown, write_content f _ hFits,
    write_content (f.truncate ps.writePos) _ (Nat.le_refl ps.writePos), hShort, truncate_content_le _ hFits,
    take_take, Nat.min_self, append_nil]
  refine take_left' ?_
  rw [length_append, hTake]

theorem Image.cut {l : Log} {prev : Nat} (h : Image l.baseIndex l.entries ps f)
    (hBuf : ps.wbuf = []) (hTail : droppedTail l prev ≠ []) :
    Image l.baseIndex (l.entries.take (prev - l.baseIndex))
      (cutPersist ps (cutSize ps (spliceFrom l prev)))
      (f.truncate (cutSize ps (spliceFrom l prev))) := by
  obtain ⟨dead, hDead, hIn, hFits, hJournal⟩ := h
  have hCut := hJournal.cut hBuf hTail
  -- the cut is made between the dead prefix and the write position
  have hBetween : dead.length ≤ cutSize ps (spliceFrom l prev) ∧
      cutSize ps (spliceFrom l prev) ≤ ps.writePos := by
    have hOld := hJournal.logSize_eq
    have hNew := hCut.logSize_eq
    have hPos := hJournal.writePos_eq hBuf
    have hLe := recsSize_take_le l.entries (prev - l.baseIndex)
    rw [show (cutPersist ps (cutSize ps (spliceFrom l prev))).logSize =
      cutSize ps (spliceFrom l prev) from rfl] at hNew
    omega
  obtain ⟨hAfter, hBefore⟩ := hBetween
  refine ⟨dead, hDead, hAfter, Nat.le_refl _, hCut.congr ?_⟩
  show ((f.truncate _).truncate (cutSize ps (spliceFrom l prev))).content = _
  rw [truncate_content_le (f.truncate (cutSize ps (spliceFrom l prev)))
      (Nat.le_refl (cutSize ps (spliceFrom l prev))),
    truncate_content_le f (hBefore.trans hFits),
    truncate_content_le (f.truncate ps.writePos) hBefore,
    truncate_content_le f hFits, take_take, take_take, Nat.min_self,
    Nat.min_eq_left hBefore]

theorem Image.rebase {l : Log} {upto : Nat} (h : Image l.baseIndex l.entries ps f)
    (hBuf : ps.wbuf = []) (hNew : l.baseIndex < upto) (hValid : OffsetValid l ps upto) :
    Image upto (l.entries.drop (upto - l.baseIndex))
      (rebasePersist ps l upto (boundaryOffset ps upto))
      (punchHole f (boundaryOffset ps upto)) := by
  obtain ⟨dead, -, -, hFits, hJournal⟩ := h
  obtain ⟨dead', hLen, hRebased⟩ := hJournal.rebase hBuf hNew
  have hDead := hLen.mpr hValid
  have hSize := hRebased.logSize_eq
  have hPos := hJournal.writePos_eq hBuf
  rw [show (rebasePersist ps l upto (boundaryOffset ps upto)).logSize = ps.logSize from rfl,
    hDead] at hSize
  have hHole : ps.writePos ≤ (punchHole f (boundaryOffset ps upto)).size := by
    rw [punchHole_size]
    exact hFits
  have hInside : boundaryOffset ps upto ≤ (f.truncate ps.writePos).size := by
    show boundaryOffset ps upto ≤ ps.writePos
    omega
  refine ⟨dead', hDead, hDead ▸ hInside, hHole, hRebased.congr ?_⟩
  show ((punchHole f _).truncate ps.writePos).content = _
  rw [truncate_content_le _ hHole, punchHole_content, punchHole_content,
    truncate_content_le f hFits, Nat.min_eq_left (by omega),
    Nat.min_eq_left hInside, take_append,
    length_replicate, take_of_length_le (by rw [length_replicate]; omega),
    drop_take]

theorem image_install (ps : Persist) (f : LogFile) (base : Nat) :
    Image base [] (installPersist ps base) f :=
  ⟨[], rfl, Nat.zero_le _, Nat.zero_le _, journal_install ps f base⟩

end Operations

/-! ## The storage steps of a node -/

/-- What the image invariant says of a node and its data directory. -/
structure Imaged (n : Node) (d : Disk) : Prop where
  image : Image n.log.baseIndex n.log.entries n.persist d.log
  typed : ∀ e ∈ n.log.entries, e.Typed

/-- A node that only wrote to its log file: unless storage failed on the way, the image is
kept. -/
structure Writes (n n' : Node) (d d' : Disk) : Prop where
  log : n'.log.baseIndex = n.log.baseIndex ∧ n'.log.entries = n.log.entries
  io : n'.io = n.io
  failed : n'.storageFailed = false → n.storageFailed = false
  image : n'.storageFailed = false → ∀ {base : Nat} {es : List Entry},
    Image base es n.persist d.log → Image base es n'.persist d'.log
  cells : n'.storageFailed = false → n'.persist.offsets = n.persist.offsets ∧
    n'.persist.logSize = n.persist.logSize ∧ n'.persist.baseIndex = n.persist.baseIndex

theorem writes_persistWriteFlush (n : Node) (d : Disk) :
    ∃ effs, (persistWriteFlush n).out = n.out ++ effs ∧
      Writes n (persistWriteFlush n) d (d.applyAll effs) := by
  have hFlush := flushes_persistWriteFlush n
  generalize persistWriteFlush n = m at hFlush
  cases hFlush with
  | idle => exact ⟨[], by simp, ⟨rfl, rfl⟩, rfl, id, fun _ => id, fun _ => ⟨rfl, rfl, rfl⟩⟩
  | write size effs _ hReserved =>
    refine ⟨effs ++ [_], append_assoc .., ⟨rfl, rfl⟩, rfl, id, fun _ _ _ h => ?_,
      fun _ => ⟨rfl, rfl, rfl⟩⟩
    rcases hReserved with rfl | rfl
    · exact (h.resize size).flush
    · exact (h.reserve size).flush
  | lost _ effs =>
    -- a failed write raises the flag
    exact ⟨effs, rfl, ⟨rfl, rfl⟩, rfl, nofun, nofun,
      nofun⟩

theorem writes_persistSync (n : Node) (d : Disk) :
    ∃ effs, (persistSync n).out = n.out ++ effs ∧
      Writes n (persistSync n) d (d.applyAll effs) := by
  obtain ⟨effs, hOut, hLog, hIo, hFailed, hImage, hCells⟩ := writes_persistWriteFlush n d
  unfold persistSync
  generalize persistWriteFlush n = m at *
  dsimp only
  split
  · exact ⟨effs, hOut, hLog, hIo, hFailed, hImage, hCells⟩
  split
  · split
    · refine ⟨effs ++ [.fsync], ?_, hLog, hIo, hFailed, fun hFine base es h => ?_, hCells⟩
      · rw [← append_assoc, ← hOut]
        rfl
      · rw [applyAll_append]
        exact (hImage hFine h).mark false
    · rw [storageWriteFailed_eq]
      exact ⟨effs, hOut, hLog, hIo, nofun, nofun,
        nofun⟩
  · exact ⟨effs, hOut, hLog, hIo, hFailed, hImage, hCells⟩

/-- The storage steps of a node, and what goes on around them: the io outcomes change, and
entries are committed and applied. -/
inductive StoreCmd
  | append (e : Entry)
  | flush
  | sync
  | truncate (idx : Nat)
  | compact (upto : Nat)
  | install (base baseTerm : Nat) (topo : List TopoRec)
  | setIo (io : Io)
  | progress (commitIndex appliedIndex : Nat) (applied : Applied)

def StoreCmd.run (n : Node) : StoreCmd → Node
  | .append e => logAppend n e
  | .flush => persistWriteFlush n
  | .sync => persistSync n
  | .truncate idx => logTruncateFrom n idx
  | .compact upto => logCompactTo n upto
  | .install base baseTerm topo => installSnapshot n base baseTerm topo
  | .setIo io => { n with io }
  | .progress commitIndex appliedIndex applied =>
    { n with log := { n.log with commitIndex, appliedIndex }, applied }

structure Stored where
  node : Node
  disk : Disk

/-- A node started on a data directory, whatever that holds. -/
def Setup.stored (S : Setup) (i : Nat) (d : Disk) : Stored where
  node := (S.boot i d).settle
  disk := d.applyAll (S.boot i d).out

def Stored.step (s : Stored) (cmd : StoreCmd) : Option Stored :=
  some { node := (cmd.run s.node).settle, disk := s.disk.applyAll (cmd.run s.node).out }

/-- A storage step that the image survives: an `ftruncate` that has to drop records succeeds,
and a compaction stays inside the log and reads a valid offset cell. An appended entry has
the field widths of the source's record. -/
def StoreOk (s : Stored) (cmd : StoreCmd) (_ : Stored) : Prop :=
  match cmd with
  | .append e => e.Typed
  | .truncate idx => s.node.io.truncateOk = true ∨
      s.node.log.lastIndex < max idx (s.node.log.baseIndex + 1)
  | .compact upto =>
    s.node.log.baseIndex + clCompactBatch ≤ compactIndex s.node upto →
      compactIndex s.node upto ≤ s.node.log.lastIndex ∧
        OffsetValid s.node.log s.node.persist (compactIndex s.node upto)
  | _ => True

instance (e : Entry) : Decidable e.Typed :=
  decidable_of_iff (e.term < 2 ^ 64 ∧ e.op < 2 ^ 32 ∧ e.len < 2 ^ 32)
    ⟨fun ⟨hTerm, hOp, hLen⟩ => ⟨hTerm, hOp, hLen⟩, fun ⟨hTerm, hOp, hLen⟩ => ⟨hTerm, hOp, hLen⟩⟩

instance (l : Log) (ps : Persist) (upto : Nat) : Decidable (OffsetValid l ps upto) :=
  inferInstanceAs (Decidable (_ ∨ _ ∨ _))

instance (s : Stored) (cmd : StoreCmd) (t : Stored) : Decidable (StoreOk s cmd t) :=
  match cmd with
  | .append e => inferInstanceAs (Decidable e.Typed)
  | .truncate _ => inferInstanceAs (Decidable (_ ∨ _))
  | .compact _ => inferInstanceAs (Decidable (_ → _ ∧ _))
  | .flush | .sync | .install .. | .setIo _ | .progress .. => .isTrue trivial

theorem Writes.imaged {n n' : Node} {d d' : Disk} (h : Writes n n' d d') (hImaged : Imaged n d)
    (hFine : n'.storageFailed = false) : Imaged n' d' := by
  obtain ⟨hBase, hEntries⟩ := h.log
  refine ⟨?_, by rw [hEntries]; exact hImaged.typed⟩
  rw [hBase, hEntries]
  exact h.image hFine hImaged.image

section Steps

variable {n : Node} {d : Disk}

theorem imaged_append (h : Imaged n d) {e : Entry} (hTyped : e.Typed) :
    Imaged (logAppend n e) d := by
  refine ⟨h.image.push [e], fun x hx => ?_⟩
  rcases mem_append.mp hx with hOld | hNew
  · exact h.typed x hOld
  · rw [mem_singleton.mp hNew]
    exact hTyped

/-- A truncation keeps it if the file is cut, or nothing has to be. -/
theorem imaged_truncate (h : n.storageFailed = false → Imaged n d) (hOut : n.out = []) {idx : Nat}
    (hCut : n.io.truncateOk = true ∨ n.log.lastIndex < max idx (n.log.baseIndex + 1))
    (hFine : (logTruncateFrom n idx).storageFailed = false) :
    Imaged (logTruncateFrom n idx) (d.applyAll (logTruncateFrom n idx).out) := by
  -- the cut is made where an APPEND with `prev = idx - 1` would make it
  have hClamp : (if idx ≤ n.log.baseIndex then n.log.baseIndex + 1 else idx) =
      spliceFrom n.log (idx - 1) := by
    unfold spliceFrom
    split <;> omega
  unfold logTruncateFrom at hFine ⊢
  rw [hClamp] at hFine ⊢
  dsimp only at hFine ⊢
  by_cases hTail : droppedTail n.log (idx - 1) = []
  · rw [if_pos ((droppedTail_eq_nil_iff _ _).mp hTail)] at hFine ⊢
    rw [hOut]
    exact h hFine
  have hLast : ¬ n.log.lastIndex < spliceFrom n.log (idx - 1) := by
    rwa [← droppedTail_eq_nil_iff]
  have hOk : n.io.truncateOk = true := by
    refine hCut.resolve_right fun hShort => hLast ?_
    unfold spliceFrom
    omega
  rw [if_neg hLast] at hFine ⊢
  unfold persistTruncate at hFine ⊢
  rw [if_neg (show ¬ spliceFrom n.log (idx - 1) < 1 by unfold spliceFrom; omega)] at hFine ⊢
  obtain ⟨effs, hEffs, hWrites⟩ := writes_persistWriteFlush n d
  have hBuf := persistWriteFlush_wbuf n
  have hLog := (flushed_persistWriteFlush n).log
  generalize persistWriteFlush n = m at hEffs hWrites hBuf hLog hFine
  dsimp only at hFine ⊢
  rw [if_pos (hWrites.io ▸ hOk)] at hFine ⊢
  have hM := hWrites.imaged (h (hWrites.failed hFine)) hFine
  rw [← hLog] at hTail ⊢
  refine ⟨?_, fun e he => hM.typed e (mem_of_mem_take he)⟩
  have hImage := hM.image.cut hBuf hTail
  have hKeep : spliceFrom m.log (idx - 1) - 1 - m.log.baseIndex = idx - 1 - m.log.baseIndex := by
    unfold spliceFrom
    omega
  show Image m.log.baseIndex (m.log.entries.take _) _
    (d.applyAll (m.out ++ [.file (.truncate _)])).log
  rw [hKeep, hEffs, hOut, nil_append, applyAll_append]
  exact hImage

/-- A compaction keeps the image if the offset it reads is valid. -/
theorem imaged_compact (h : n.storageFailed = false → Imaged n d) (hOut : n.out = []) {upto : Nat}
    (hValid : n.log.baseIndex + clCompactBatch ≤ compactIndex n upto →
      OffsetValid n.log n.persist (compactIndex n upto))
    (hFine : (logCompactTo n upto).storageFailed = false) :
    Imaged (logCompactTo n upto) (d.applyAll (logCompactTo n upto).out) := by
  by_cases hGo : n.io.snapshotOk = true ∧
      n.log.baseIndex + clCompactBatch ≤ compactIndex n upto
  · obtain ⟨hIo, hBatch⟩ := hGo
    have hOffset := hValid hBatch
    rw [logCompactTo_eq hIo hBatch] at hFine ⊢
    generalize compactIndex n upto = u at hBatch hOffset hFine
    have hNew : n.log.baseIndex < u := by
      unfold clCompactBatch at hBatch
      omega
    set n₁ := n.emit (.snapshot (boundarySnap n u)) with hn₁
    set d₁ := d.apply (.snapshot (boundarySnap n u)) with hd₁
    obtain ⟨effs, hEffs, hWrites⟩ := writes_persistWriteFlush n₁ d₁
    have hBuf := persistWriteFlush_wbuf n₁
    have hLog := (flushed_persistWriteFlush n₁).log
    generalize persistWriteFlush n₁ = m at hEffs hWrites hBuf hLog hFine
    obtain ⟨hPersist, hRebased, -, hFailed⟩ := rebaseTo_fields m u (boundaryOffset n.persist u)
    have hSame : m.storageFailed = false := hFailed.symm.trans hFine
    have hN := h (hWrites.failed hSame)
    have hM := hWrites.imaged (show Imaged n₁ d₁ from ⟨hN.image, hN.typed⟩) hSame
    obtain ⟨hOffsets, hSize, hBase⟩ := hWrites.cells hSame
    -- the flush in between leaves the cells alone
    have hOff : boundaryOffset n.persist u = boundaryOffset m.persist u := by
      unfold boundaryOffset
      rw [hOffsets, hSize, hBase]
      rfl
    have hOffset' : OffsetValid m.log m.persist u := by
      unfold OffsetValid
      rw [← hOff, hOffsets, hSize, hBase, hLog]
      exact hOffset
    have hImage := hM.image.rebase hBuf (show m.log.baseIndex < u by rw [hLog]; exact hNew)
      hOffset'
    have hDisk : d.applyAll m.out = d₁.applyAll effs := by
      rw [hEffs, show n₁.out = n.out ++ [.snapshot (boundarySnap n u)] from rfl, hOut,
        nil_append, applyAll_append]
      rfl
    refine ⟨?_, ?_⟩
    · rw [hPersist, hRebased, (rebaseTo_disk m d u _).1, hDisk, hOff]
      exact hImage
    · rw [hRebased]
      exact fun e he => hM.typed e (mem_of_mem_drop he)
  · rw [logCompactTo_none hGo] at hFine ⊢
    rw [hOut]
    exact h hFine

theorem imaged_install (base baseTerm : Nat) (topo : List TopoRec) :
    Imaged (installSnapshot n base baseTerm topo) d := by
  have hFields : (installSnapshot n base baseTerm topo).log = installLog base baseTerm ∧
      (installSnapshot n base baseTerm topo).persist = installPersist n.persist base := by
    unfold installSnapshot
    dsimp only
    split <;> split <;> exact ⟨rfl, rfl⟩
  obtain ⟨hLog, hPersist⟩ := hFields
  refine ⟨?_, ?_⟩
  · rw [hLog, hPersist]
    exact image_install n.persist d.log base
  · rw [hLog]
    exact fun e he => by cases he

theorem imaged_boot (S : Setup) (i : Nat) (d : Disk) :
    Imaged (S.boot i d) (d.applyAll (S.boot i d).out) := by
  obtain ⟨dead, hDead, hJournal⟩ := journal_load (S.freshNode i) d rfl rfl
  have hLoad : (S.boot i d).out = [.file (.truncate (S.boot i d).persist.logSize)] ∧
      (S.boot i d).persist.writePos = (S.boot i d).persist.logSize ∧
      ∃ base off, (S.boot i d).log.entries = recoverEntries d.log base off := by
    unfold Setup.boot persistLoad
    cases d.snap <;> exact ⟨rfl, rfl, _, _, rfl⟩
  obtain ⟨hOut, hPos, base, off, hEntries⟩ := hLoad
  refine ⟨⟨dead, hDead, ?_, ?_, ?_⟩, fun e he => ?_⟩
  · rw [hPos]
    exact (Nat.le_add_right _ _).trans_eq hJournal.logSize_eq.symm
  · rw [hOut, hPos]
    exact Nat.le_refl _
  · -- the file was just cut at the write position
    refine Journal.congr hJournal ?_
    rw [hOut, hPos]
    show ((d.log.truncate (S.boot i d).persist.logSize).truncate _).content = _
    rw [truncate_content_le (d.log.truncate (S.boot i d).persist.logSize)
      (Nat.le_refl (S.boot i d).persist.logSize)]
    exact take_of_length_le (content_length (d.log.truncate _)).le
  · rw [hEntries, recoverEntries_eq] at he
    exact ((encRecords_parseRecords _ _ _).2 e he).1

end Steps

/-! ## The invariant over runs -/

/-- Decoding the log file from the base offset to the write position, and the write buffer
behind it, gives the entries with their indexes; the offset table holds where they start. -/
def OnDisk (n : Node) (d : Disk) : Prop :=
  let image := (d.log.content.take n.persist.writePos).drop n.persist.baseOffset ++ n.persist.wbuf
  decodeRecords image.length image = indexed (n.log.baseIndex + 1) n.log.entries ∧
    ∀ k < n.log.entries.length,
      n.persist.offsets[k]? = some (n.persist.baseOffset + recsSize (n.log.entries.take k))

instance (n : Node) (d : Disk) : Decidable (OnDisk n d) := by
  unfold OnDisk
  infer_instance

theorem Imaged.onDisk {n : Node} {d : Disk} (h : Imaged n d) (hIndex : n.log.lastIndex < 2 ^ 64) :
    OnDisk n d := by
  obtain ⟨⟨dead, hDead, hIn, hFits, hJournal⟩, hTyped⟩ := h
  have hBytes := hJournal.bytes
  rw [truncate_content_le _ hFits, take_take, Nat.min_self] at hBytes
  have hTake : (d.log.content.take n.persist.writePos).length = n.persist.writePos := by
    rw [length_take, content_length]
    omega
  have hRecords : (d.log.content.take n.persist.writePos).drop n.persist.baseOffset ++
      n.persist.wbuf = encRecords (n.log.baseIndex + 1) n.log.entries := by
    rw [← hDead, ← drop_append_of_le_length (by omega), hBytes, drop_left]
  refine ⟨?_, fun k hk => ?_⟩
  · rw [hRecords]
    refine decodeRecords_encRecords hTyped ?_ ?_
    · unfold Log.lastIndex at hIndex
      omega
    · rw [encRecords_length]
      exact length_le_recsSize _
  · obtain ⟨rest, hRest⟩ := hJournal.offsets
    rw [← hRest, getElem?_append_left (by rw [recOffsets_length]; exact hk), ← hDead]
    exact recOffsets_getElem? _ _ hk

def Stored.Sound (s : Stored) : Prop :=
  s.node.out = [] ∧ (s.node.storageFailed = false → Imaged s.node s.disk)

theorem sound_step {s t : Stored} {cmd : StoreCmd} (h : s.Sound) (hStep : s.step cmd = some t)
    (hOk : StoreOk s cmd t) : t.Sound := by
  obtain ⟨hOut, hImaged⟩ := h
  obtain ⟨n, d⟩ := s
  dsimp only at hOut hImaged
  rw [Stored.step, Option.some.injEq] at hStep
  subst hStep
  -- settling a node only takes its effects away
  suffices hRun : (cmd.run n).storageFailed = false →
      Imaged (cmd.run n) (d.applyAll (cmd.run n).out) from
    ⟨rfl, fun hFine => ⟨(hRun hFine).image, (hRun hFine).typed⟩⟩
  intro hFine
  cases cmd with
  | append e =>
    rw [show (StoreCmd.run n (.append e)).out = [] from hOut]
    exact imaged_append (hImaged hFine) hOk
  | flush =>
    obtain ⟨effs, hEffs, hWrites⟩ := writes_persistWriteFlush n d
    rw [hOut, nil_append] at hEffs
    rw [show (StoreCmd.run n .flush).out = effs from hEffs]
    exact hWrites.imaged (hImaged (hWrites.failed hFine)) hFine
  | sync =>
    obtain ⟨effs, hEffs, hWrites⟩ := writes_persistSync n d
    rw [hOut, nil_append] at hEffs
    rw [show (StoreCmd.run n .sync).out = effs from hEffs]
    exact hWrites.imaged (hImaged (hWrites.failed hFine)) hFine
  | truncate idx => exact imaged_truncate hImaged hOut hOk hFine
  | compact upto => exact imaged_compact hImaged hOut (fun hBatch => (hOk hBatch).2) hFine
  | install base baseTerm topo => exact imaged_install base baseTerm topo
  | setIo io =>
    rw [show (StoreCmd.run n (.setIo io)).out = [] from hOut]
    exact ⟨(hImaged hFine).image, (hImaged hFine).typed⟩
  | progress commitIndex appliedIndex applied =>
    rw [show (StoreCmd.run n (.progress commitIndex appliedIndex applied)).out = [] from hOut]
    exact ⟨(hImaged hFine).image, (hImaged hFine).typed⟩

/-- **The on-disk image.** Along every run of a node started on any data directory, as long
as no `ftruncate` that has to drop records fails and no compaction reads a stale offset cell,
the log file and the write buffer hold exactly the entries of the log. -/
theorem image_run {S : Setup} {i : Nat} {d : Disk} {s : Stored}
    (hRun : Run.Reach Stored.step StoreOk (S.stored i d) s)
    (hFine : s.node.storageFailed = false) (hIndex : s.node.log.lastIndex < 2 ^ 64) :
    OnDisk s.node s.disk := by
  have hInit : (S.stored i d).Sound :=
    ⟨rfl, fun _ => ⟨(imaged_boot S i d).image, (imaged_boot S i d).typed⟩⟩
  have hSound := Run.Reach.invariant (P := Stored.Sound) (fun _ _ _ => sound_step) hInit hRun
  exact (hSound.2 hFine).onDisk hIndex

def freshStored : Stored := ({ nnodes := 3, fallocChunk := 64 } : Setup).stored 0 {}

def replaceTail : List StoreCmd :=
  [.append { term := 1, op := 2, payload := [7] }, .append { term := 1, op := 2, payload := [8] },
    .flush, .truncate 2, .append { term := 2, op := 2, payload := [9] }]

theorem image_run_replaced : ∃ s, Run.runList Stored.step freshStored replaceTail = some s ∧
    s.node.log.entries.length = 2 ∧ OnDisk s.node s.disk := by
  have hRun : Run.runChecked Stored.step (fun s cmd t => decide (StoreOk s cmd t)) freshStored
      replaceTail = some _ := rfl
  exact ⟨_, rfl, rfl,
    image_run (Run.reach_of_runChecked (fun _ _ _ => of_decide_eq_true) hRun) rfl (by decide)⟩

/-- A failed `ftruncate` is only logged: the record stays in the file, behind a log that no
longer has the entry, and the next entry is written after it. -/
theorem image_failed_truncate : ∃ s, Run.runList Stored.step freshStored
      [.append { term := 1, op := 2, payload := [7] }, .flush, .setIo { truncateOk := false },
        .truncate 1] = some s ∧
    s.node.storageFailed = false ∧ s.node.log.lastIndex < 2 ^ 64 ∧ ¬ OnDisk s.node s.disk :=
  ⟨_, rfl, rfl, by decide, by decide +kernel⟩

end BeaverMQ
