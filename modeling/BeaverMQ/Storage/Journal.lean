import BeaverMQ.Model.Node
import BeaverMQ.Storage.Records

/-!
# BeaverMQ — the log file as a journal of the log

`Journal` says how the in-memory log, the bookkeeping of `cl_persist_t` and the log file
belong together: behind a dead prefix the file and the write buffer hold the records of
the log's entries, the offset cells of those entries are right, and everything after the
write position reads as zeros. Every storage operation that succeeds keeps it, and
`persist_load` establishes it whatever it finds.
-/

namespace BeaverMQ

open Bytes List LogFile

/-! ## The log under an accepted APPEND -/

def spliceLog (l : Log) (prev : Nat) (es : List Entry) : Log :=
  { l with entries := l.entries.take (prev - l.baseIndex) ++ es }

def pushRecords : Persist → Nat → List Entry → Persist
  | ps, _, [] => ps
  | ps, index, e :: es => pushRecords (persistAppend ps index e) (index + 1) es

/-- The file size `persist_truncate` cuts to for index `idx`. -/
def cutSize (ps : Persist) (idx : Nat) : Nat :=
  if ps.baseIndex < idx ∧ idx - ps.baseIndex - 1 < ps.offsets.length then
    ps.offsets.getD (idx - ps.baseIndex - 1) 0
  else ps.logSize

def cutPersist (ps : Persist) (size : Nat) : Persist :=
  { ps with logSize := size, writePos := size, dirty := true }

def spliceFrom (l : Log) (prev : Nat) : Nat := max prev l.baseIndex + 1

/-- The entries behind `prev` that an accepted APPEND drops from the log. -/
def droppedTail (l : Log) (prev : Nat) : List Entry := l.entries.drop (prev - l.baseIndex)

/-! ## Compaction -/

/-- The offset `log_compact_to` reads for the first surviving record. -/
def boundaryOffset (ps : Persist) (upto : Nat) : Nat :=
  if upto - ps.baseIndex < ps.offsets.length then ps.offsets.getD (upto - ps.baseIndex) 0
  else ps.logSize

/-- The offset cell read by `log_compact_to` was written: a record follows the boundary, or
the array has no such cell, or the cell happens to hold the end of the log. -/
def OffsetValid (l : Log) (ps : Persist) (upto : Nat) : Prop :=
  upto < l.lastIndex ∨ ps.offsets.length ≤ upto - ps.baseIndex ∨
    boundaryOffset ps upto = ps.logSize

def rebaseLog (l : Log) (upto : Nat) : Log :=
  { l with entries := l.entries.drop (upto - l.baseIndex), baseIndex := upto
           baseTerm := logTermAt l upto, compactedTo := max l.compactedTo upto }

def rebasePersist (ps : Persist) (l : Log) (upto off : Nat) : Persist :=
  { ps with
    offsets := if upto - ps.baseIndex < ps.offsets.length then
        shiftOffsets ps.offsets (upto - ps.baseIndex) (l.lastIndex - upto)
      else ps.offsets
    baseIndex := upto, baseOffset := off, dirty := true }

def installLog (base baseTerm : Nat) : Log :=
  { baseIndex := base, baseTerm, entries := [], commitIndex := base, appliedIndex := base
    durableIndex := base, compactedTo := base }

def installPersist (ps : Persist) (base : Nat) : Persist :=
  { ps with wbuf := [], logSize := 0, writePos := 0, allocSize := 0, baseIndex := base
            baseOffset := 0, dirty := true }

/-! ## The bytes of a file under the calls of the node -/

theorem applyAll_append (d : Disk) (es fs : List Effect) :
    d.applyAll (es ++ fs) = (d.applyAll es).applyAll fs := by
  simp [Disk.applyAll]

/-- A write inside the file replaces the bytes under it. -/
theorem LogFile.write_content (f : LogFile) {pos : Nat} (bs : Bytes) (hPos : pos ≤ f.size) :
    (f.write pos bs).content =
      f.content.take pos ++ bs ++ f.content.drop (pos + bs.length) := by
  have hBound := f.bound
  have hHead : (f.data ++ replicate (pos - f.data.length) 0).take pos =
      f.content.take pos := by
    unfold content
    rw [take_append, take_append, take_replicate, take_replicate]
    congr 2
    omega
  have hHeadLen : (f.content.take pos).length = pos := by
    rw [length_take, content_length]
    omega
  have hTail : f.content.drop (pos + bs.length) = f.data.drop (pos + bs.length) ++
      replicate (f.size - f.data.length - (pos + bs.length - f.data.length)) 0 := by
    unfold content
    rw [drop_append, drop_replicate]
  show ((f.data ++ replicate (pos - f.data.length) 0).take pos ++ bs ++
      f.data.drop (pos + bs.length)) ++ replicate (max f.size (pos + bs.length) -
        ((f.data ++ replicate (pos - f.data.length) 0).take pos ++ bs ++
          f.data.drop (pos + bs.length)).length) 0 = _
  rw [hTail, hHead, append_assoc _ _ (replicate _ 0)]
  congr 3
  simp only [length_append, hHeadLen, length_drop]
  omega

theorem LogFile.truncate_content (f : LogFile) (size : Nat) :
    (f.truncate size).content = f.content.take size ++ replicate (size - f.size) 0 := by
  have hBound := f.bound
  show f.data.take size ++ replicate (size - (f.data.take size).length) 0 = _
  unfold content
  rw [take_append, take_replicate, append_assoc, ← replicate_add,
    length_take]
  congr 2
  omega

theorem LogFile.falloc_content (f : LogFile) (size : Nat) :
    (f.falloc size).content = f.content ++ replicate (size - f.size) 0 := by
  have hBound := f.bound
  show f.data ++ replicate (max f.size size - f.data.length) 0 = _
  unfold content
  rw [append_assoc, ← replicate_add]
  congr 2
  omega

theorem LogFile.punch_content (f : LogFile) (upto : Nat) :
    (f.punch upto).content =
      replicate (min upto f.size) 0 ++ f.content.drop upto := by
  have hBound := f.bound
  show (replicate (min upto f.data.length) 0 ++ f.data.drop upto) ++ replicate
    (f.size - (replicate (min upto f.data.length) (0 : UInt8) ++ f.data.drop upto).length)
      0 = _
  unfold content
  simp only [length_append, length_replicate, length_drop]
  rw [drop_append, drop_replicate, append_assoc]
  by_cases hu : upto ≤ f.data.length
  · rw [Nat.min_eq_left hu, Nat.min_eq_left (by omega)]
    congr 3
    omega
  rw [Nat.min_eq_right (by omega), drop_eq_nil_of_le (by omega), nil_append,
    nil_append, ← replicate_add, ← replicate_add]
  congr 1
  omega

/-! ## Offsets -/

theorem recOffsets_length (off : Nat) (es : List Entry) : (recOffsets off es).length = es.length := by
  induction es generalizing off with
  | nil => rfl
  | cons e es ih => rw [recOffsets, length_cons, ih, length_cons]

theorem recOffsets_append (off : Nat) (xs ys : List Entry) :
    recOffsets off (xs ++ ys) = recOffsets off xs ++ recOffsets (off + recsSize xs) ys := by
  induction xs generalizing off with
  | nil => simp [recOffsets]
  | cons x xs ih =>
    rw [cons_append, recOffsets, recOffsets, ih, recsSize_cons, cons_append,
      Nat.add_assoc]

theorem recOffsets_getElem? (off : Nat) (es : List Entry) {k : Nat} (hk : k < es.length) :
    (recOffsets off es)[k]? = some (off + recsSize (es.take k)) := by
  have hSplit : es = es.take k ++ es.drop k := (take_append_drop k es).symm
  obtain ⟨e, rest, hDrop⟩ : ∃ e rest, es.drop k = e :: rest := by
    cases hd : es.drop k with
    | nil =>
      rw [drop_eq_nil_iff] at hd
      omega
    | cons e rest => exact ⟨e, rest, rfl⟩
  have hLen : (recOffsets off (es.take k)).length = k := by
    rw [recOffsets_length, length_take]
    omega
  conv_lhs => rw [hSplit, recOffsets_append, hDrop]
  rw [getElem?_append_right (by omega), hLen, Nat.sub_self]
  rfl

theorem le_growCap {need fuel cap : Nat} (hPos : 0 < cap) (hFuel : need ≤ cap + fuel) :
    need ≤ growCap need fuel cap := by
  induction fuel generalizing cap with
  | zero => exact hFuel
  | succ fuel ih =>
    unfold growCap
    split
    · exact ih (by omega) (by omega)
    · omega

theorem offEnsure_facts (ps : Persist) (need : Nat) :
    ∃ cells, offEnsure ps need = { ps with offsets := ps.offsets ++ cells } ∧
      need ≤ (ps.offsets ++ cells).length := by
  unfold offEnsure
  dsimp only
  split
  · rename_i hFits
    exact ⟨[], by simp, by simpa using hFits⟩
  rename_i hFits
  refine ⟨_, rfl, ?_⟩
  have hGrow : need ≤ growCap need need
      (if ps.offsets.length = 0 then 64 else ps.offsets.length) :=
    le_growCap (by split <;> omega) (by omega)
  simp only [length_append, length_map, length_range]
  omega

/-! ## The journal -/

/-- The file and the write buffer hold, behind a dead prefix, the records of the entries
`es` from index `base + 1` on. -/
structure Journal (dead : Bytes) (base : Nat) (es : List Entry) (ps : Persist) (f : LogFile) :
    Prop where
  baseEq : ps.baseIndex = base
  size : ps.logSize = ps.writePos + ps.wbuf.length
  fits : ps.writePos ≤ f.size
  bytes : f.content.take ps.writePos ++ ps.wbuf = dead ++ encRecords (base + 1) es
  zeros : ∀ b ∈ f.content.drop ps.writePos, b = 0
  offsets : recOffsets dead.length es <+: ps.offsets

section Operations

variable {dead : Bytes} {base : Nat} {es : List Entry} {ps : Persist} {f : LogFile}

section

variable (h : Journal dead base es ps f)
include h

theorem Journal.logSize_eq : ps.logSize = dead.length + recsSize es := by
  have hLen := congrArg length h.bytes
  rw [length_append, length_take, content_length, length_append,
    encRecords_length, Nat.min_eq_left h.fits, ← h.size] at hLen
  exact hLen

theorem Journal.writePos_eq (hBuf : ps.wbuf = []) : ps.writePos = ps.logSize := by
  rw [h.size, hBuf]
  rfl

theorem Journal.cells : es.length ≤ ps.offsets.length := by
  have hLen := h.offsets.length_le
  rwa [recOffsets_length] at hLen

theorem Journal.cell {k : Nat} (hk : k < es.length) :
    ps.offsets.getD k 0 = dead.length + recsSize (es.take k) := by
  obtain ⟨rest, hRest⟩ := h.offsets
  have hAt := recOffsets_getElem? dead.length es hk
  rw [getD_eq_getElem?_getD, ← hRest,
    getElem?_append_left (by rw [recOffsets_length]; exact hk), hAt]
  rfl

/-- A record goes to the write buffer, and its offset to the next cell. -/
theorem Journal.append (e : Entry) :
    Journal dead base (es ++ [e]) (persistAppend ps (base + es.length + 1) e) f := by
  obtain ⟨cells, hEnsure, hRoom⟩ := offEnsure_facts ps (base + es.length + 1 - ps.baseIndex)
  have hNeed : base + es.length + 1 - ps.baseIndex = es.length + 1 := by
    rw [h.baseEq]
    omega
  rw [hNeed] at hEnsure hRoom
  have hSize := h.logSize_eq
  obtain ⟨rest, hRest⟩ := h.offsets
  unfold persistAppend
  rw [hNeed, hEnsure]
  refine ⟨h.baseEq, ?_, h.fits, ?_, h.zeros, ?_⟩
  · dsimp only
    rw [h.size, length_append, encRecord_length]
    omega
  · have hIndex : base + es.length + 1 = base + 1 + es.length := by omega
    dsimp only
    rw [← append_assoc, h.bytes, encRecords_append, append_assoc, hIndex]
    simp only [encRecords, append_nil]
  · -- the new cell comes right behind the cells of the older entries
    dsimp only
    rw [hNeed, Nat.add_sub_cancel, recOffsets_append, ← hRest, append_assoc]
    have hLen : (recOffsets dead.length es).length = es.length := recOffsets_length _ _
    rw [← hRest, append_assoc, length_append, hLen] at hRoom
    obtain ⟨c, cs, hcs⟩ : ∃ c cs, rest ++ cells = c :: cs := by
      cases hCase : rest ++ cells with
      | nil =>
        rw [hCase] at hRoom
        simp at hRoom
      | cons c cs => exact ⟨c, cs, rfl⟩
    rw [hcs, set_append_right _ _ (by omega), hLen, Nat.sub_self, set_cons_zero, hSize]
    exact ⟨cs, by simp [recOffsets]⟩

theorem Journal.push (new : List Entry) :
    Journal dead base (es ++ new) (pushRecords ps (base + es.length + 1) new) f := by
  induction new generalizing es ps with
  | nil => simpa [pushRecords] using h
  | cons e new ih =>
    have hNext := ih (h.append e)
    rw [append_assoc, singleton_append, length_append, length_singleton]
      at hNext
    exact hNext

theorem Journal.reserve (target : Nat) :
    Journal dead base es { ps with allocSize := target } (f.falloc target) := by
  have hFits := h.fits
  refine ⟨h.baseEq, h.size, ?_, ?_, ?_, h.offsets⟩
  · exact hFits.trans (le_max_left _ _)
  · rw [falloc_content, take_append_of_le_length
      (by rw [content_length]; exact hFits)]
    exact h.bytes
  · intro b hb
    rw [falloc_content, drop_append] at hb
    rcases mem_append.mp hb with hb | hb
    · exact h.zeros b hb
    · exact eq_of_mem_replicate (mem_of_mem_drop hb)

theorem Journal.flush :
    Journal dead base es
      { ps with writePos := ps.writePos + ps.wbuf.length, wbuf := [] }
      (f.write ps.writePos ps.wbuf) := by
  have hFits := h.fits
  have hLen : (f.content.take ps.writePos ++ ps.wbuf).length = ps.writePos + ps.wbuf.length := by
    rw [length_append, length_take, content_length]
    omega
  refine ⟨h.baseEq, ?_, ?_, ?_, ?_, h.offsets⟩
  · simpa using h.size
  · exact le_max_right _ _
  · dsimp only
    rw [write_content f _ hFits, append_nil, ← hLen, take_left]
    exact h.bytes
  · intro b hb
    dsimp only at hb
    rw [write_content f _ hFits, ← hLen, drop_left, hLen, ← drop_drop] at hb
    exact h.zeros b (mem_of_mem_drop hb)

end

theorem encRecords_take (base k : Nat) (es : List Entry) :
    (encRecords (base + 1) es).take (recsSize (es.take k)) = encRecords (base + 1) (es.take k) := by
  conv_lhs => rw [← take_append_drop k es, encRecords_append]
  rw [take_append_drop, ← encRecords_length (base + 1) (es.take k), take_left]

theorem encRecords_drop {k : Nat} (base : Nat) {es : List Entry} (hk : k ≤ es.length) :
    (encRecords (base + 1) es).drop (recsSize (es.take k)) =
      encRecords (base + k + 1) (es.drop k) := by
  conv_lhs => rw [← take_append_drop k es, encRecords_append]
  rw [take_append_drop, ← encRecords_length (base + 1) (es.take k), drop_left,
    length_take, Nat.min_eq_left hk]
  congr 1
  omega

theorem recsSize_take_le (es : List Entry) (k : Nat) : recsSize (es.take k) ≤ recsSize es := by
  conv_rhs => rw [← take_append_drop k es, recsSize_append]
  exact Nat.le_add_right _ _

theorem Journal.content_eq (h : Journal dead base es ps f) (hBuf : ps.wbuf = []) :
    ∃ k, f.content = dead ++ encRecords (base + 1) es ++ replicate k 0 := by
  have hBytes := h.bytes
  rw [hBuf, append_nil] at hBytes
  have hZeros : f.content.drop ps.writePos = replicate (f.content.drop ps.writePos).length 0 :=
    eq_replicate_iff.mpr ⟨rfl, h.zeros⟩
  refine ⟨(f.content.drop ps.writePos).length, ?_⟩
  rw [← hZeros, ← hBytes, take_append_drop]

/-- Truncating the file drops whole records. -/
theorem Journal.cut {l : Log} {prev : Nat} (h : Journal dead l.baseIndex l.entries ps f)
    (hBuf : ps.wbuf = []) (hTail : droppedTail l prev ≠ []) :
    Journal dead l.baseIndex (l.entries.take (prev - l.baseIndex))
      (cutPersist ps (cutSize ps (spliceFrom l prev)))
      (f.truncate (cutSize ps (spliceFrom l prev))) := by
  set k := prev - l.baseIndex with hk
  have hkLen : k < l.entries.length := by
    unfold droppedTail at hTail
    rw [Ne, drop_eq_nil_iff] at hTail
    omega
  have hCells := h.cells
  -- the cell of the first dropped record says where the file is cut
  have hSlot : spliceFrom l prev - ps.baseIndex - 1 = k := by
    rw [h.baseEq, spliceFrom]
    omega
  have hCut : cutSize ps (spliceFrom l prev) = dead.length + recsSize (l.entries.take k) := by
    unfold cutSize
    rw [hSlot, if_pos ⟨by rw [h.baseEq, spliceFrom]; omega, by omega⟩, h.cell hkLen]
  rw [hCut]
  have hSize := h.logSize_eq
  have hPos := h.writePos_eq hBuf
  have hLe := recsSize_take_le l.entries k
  have hFits := h.fits
  have hContent : (f.truncate (dead.length + recsSize (l.entries.take k))).content =
      dead ++ encRecords (l.baseIndex + 1) (l.entries.take k) := by
    have hBytes := h.bytes
    rw [hBuf, append_nil] at hBytes
    have hShort : f.content.take (dead.length + recsSize (l.entries.take k)) =
        (f.content.take ps.writePos).take (dead.length + recsSize (l.entries.take k)) := by
      rw [take_take, Nat.min_eq_left (by omega)]
    rw [truncate_content, Nat.sub_eq_zero_of_le (by omega), replicate_zero,
      append_nil, hShort, hBytes, take_length_add_append, encRecords_take]
  have hLen : (dead ++ encRecords (l.baseIndex + 1) (l.entries.take k)).length =
      dead.length + recsSize (l.entries.take k) := by
    rw [length_append, encRecords_length]
  refine ⟨h.baseEq, ?_, ?_, ?_, ?_, ?_⟩
  · simp [cutPersist, hBuf]
  · exact Nat.le_refl _
  · show (content _).take (dead.length + recsSize (l.entries.take k)) ++ ps.wbuf = _
    rw [hContent, ← hLen, take_length, hBuf, append_nil]
  · intro b hb
    have hEnd : (f.truncate (dead.length + recsSize (l.entries.take k))).content.drop
        (dead.length + recsSize (l.entries.take k)) = [] := by
      rw [hContent, ← hLen, drop_length]
    rw [show (cutPersist ps (dead.length + recsSize (l.entries.take k))).writePos =
      dead.length + recsSize (l.entries.take k) from rfl, hEnd] at hb
    cases hb
  · refine List.IsPrefix.trans ?_ h.offsets
    conv_rhs => rw [← take_append_drop k l.entries, recOffsets_append]
    exact prefix_append _ _

theorem journal_install (ps : Persist) (f : LogFile) (base : Nat) :
    Journal [] base [] (installPersist ps base) (f.truncate 0) := by
  refine ⟨rfl, rfl, Nat.le_refl _, ?_, ?_, nil_prefix⟩
  · simp [installPersist, encRecords]
  · intro b hb
    rw [truncate_content] at hb
    simp [installPersist] at hb

/-! ### Compaction -/

def punchHole (f : LogFile) (off : Nat) : LogFile := if 0 < off then f.punch off else f

theorem punchHole_content (f : LogFile) (off : Nat) :
    (punchHole f off).content = replicate (min off f.size) 0 ++ f.content.drop off := by
  unfold punchHole
  split
  · exact punch_content f off
  rename_i hOff
  rw [Nat.eq_zero_of_not_pos hOff]
  simp

theorem punchHole_size (f : LogFile) (off : Nat) : (punchHole f off).size = f.size := by
  unfold punchHole
  split <;> rfl

theorem Journal.zeros_punched (h : Journal dead base es ps f) (off : Nat) :
    ∀ b ∈ (punchHole f off).content.drop ps.writePos, b = 0 := by
  intro b hb
  rw [punchHole_content, drop_append] at hb
  rcases mem_append.mp hb with hb | hb
  · exact eq_of_mem_replicate (mem_of_mem_drop hb)
  rw [length_replicate, drop_drop] at hb
  have hSplit : off + (ps.writePos - min off f.size) =
      ps.writePos + (off + (ps.writePos - min off f.size) - ps.writePos) := by omega
  rw [hSplit, ← drop_drop] at hb
  exact h.zeros b (mem_of_mem_drop hb)

theorem drop_entries_eq_nil {l : Log} {upto : Nat} (hLast : l.lastIndex ≤ upto) :
    l.entries.drop (upto - l.baseIndex) = [] := by
  rw [drop_eq_nil_iff]
  unfold Log.lastIndex at hLast
  omega

section Compaction

variable {l : Log} {upto : Nat} (h : Journal dead l.baseIndex l.entries ps f)
  (hBuf : ps.wbuf = [])
include h hBuf

/-- A compaction with survivors: the hole is punched up to the first of them. -/
theorem Journal.rebase_inside (hNew : l.baseIndex < upto) (hLast : upto < l.lastIndex) :
    Journal (replicate (boundaryOffset ps upto) 0) upto
      (l.entries.drop (upto - l.baseIndex))
      (rebasePersist ps l upto (boundaryOffset ps upto))
      (punchHole f (boundaryOffset ps upto)) := by
  set k := upto - l.baseIndex with hk
  have hkLen : k < l.entries.length := by
    unfold Log.lastIndex at hLast
    omega
  have hCells := h.cells
  have hSlot : upto - ps.baseIndex = k := by rw [h.baseEq]
  have hOff : boundaryOffset ps upto = dead.length + recsSize (l.entries.take k) := by
    unfold boundaryOffset
    rw [hSlot, if_pos (by omega), h.cell hkLen]
  have hSize := h.logSize_eq
  have hPos := h.writePos_eq hBuf
  have hLe := recsSize_take_le l.entries k
  have hFits := h.fits
  rw [hOff]
  set off := dead.length + recsSize (l.entries.take k) with hOffDef
  have hHole : (punchHole f off).content = replicate off 0 ++ f.content.drop off := by
    rw [punchHole_content, Nat.min_eq_left (by omega)]
  have hLive : (f.content.drop off).take (ps.writePos - off) =
      encRecords (upto + 1) (l.entries.drop k) := by
    have hBytes := h.bytes
    rw [hBuf, append_nil] at hBytes
    rw [← drop_take, hBytes, hOffDef, drop_length_add_append,
      encRecords_drop l.baseIndex hkLen.le]
    congr 1
    omega
  refine ⟨rfl, h.size, ?_, ?_, ?_, ?_⟩
  · rw [punchHole_size]
    exact hFits
  · show (content _).take ps.writePos ++ ps.wbuf = _
    rw [hHole, hBuf, append_nil, take_append, length_replicate, hLive,
      take_of_length_le (by rw [length_replicate]; omega)]
  · exact h.zeros_punched off
  · -- the cells of the survivors move to the front
    obtain ⟨rest, hRest⟩ := h.offsets
    have hCount : l.lastIndex - upto = l.entries.length - k := by
      unfold Log.lastIndex
      omega
    have hLen : (recOffsets dead.length l.entries).length = l.entries.length :=
      recOffsets_length _ _
    have hMoved : recOffsets off (l.entries.drop k) =
        (recOffsets dead.length l.entries).drop k := by
      have hTake : (recOffsets dead.length (l.entries.take k)).length = k := by
        rw [recOffsets_length, length_take]
        omega
      conv_rhs => rw [← take_append_drop k l.entries, recOffsets_append]
      rw [drop_left' hTake]
    show _ <+: if upto - ps.baseIndex < ps.offsets.length then _ else _
    rw [length_replicate, hSlot, if_pos (by omega), hMoved, hCount, shiftOffsets, ← hRest]
    refine ⟨(recOffsets dead.length l.entries ++ rest).drop (l.entries.length - k), ?_⟩
    congr 1
    rw [drop_append_of_le_length (by omega), take_append_of_le_length
      (by rw [length_drop]; omega), take_of_length_le (by rw [length_drop]; omega)]

/-- A compaction that leaves no record: whatever offset it reads, nothing is left to lose. -/
theorem Journal.rebase_all (hLast : l.lastIndex ≤ upto) (off : Nat) :
    Journal ((punchHole f off).content.take ps.writePos) upto
      (l.entries.drop (upto - l.baseIndex)) (rebasePersist ps l upto off)
      (punchHole f off) := by
  rw [drop_entries_eq_nil hLast]
  refine ⟨rfl, h.size, ?_, ?_, h.zeros_punched off, nil_prefix⟩
  · rw [punchHole_size]
    exact h.fits
  · show (content _).take ps.writePos ++ ps.wbuf = _
    rw [hBuf]
    rfl

/-- **A compaction keeps the journal**, and the offset it writes to the snapshot is where the
survivors start exactly when it was read from a valid cell. -/
theorem Journal.rebase (hNew : l.baseIndex < upto) :
    ∃ dead', (dead'.length = boundaryOffset ps upto ↔ OffsetValid l ps upto) ∧
      Journal dead' upto (l.entries.drop (upto - l.baseIndex))
        (rebasePersist ps l upto (boundaryOffset ps upto))
        (punchHole f (boundaryOffset ps upto)) := by
  by_cases hInside : upto < l.lastIndex
  · exact ⟨_, iff_of_true length_replicate (.inl hInside), h.rebase_inside hBuf hNew hInside⟩
  have hJournal := h.rebase_all hBuf (Nat.le_of_not_lt hInside) (boundaryOffset ps upto)
  refine ⟨_, ?_, hJournal⟩
  -- nothing survives, so the dead prefix is the whole log
  have hLen := hJournal.logSize_eq
  rw [drop_entries_eq_nil (Nat.le_of_not_lt hInside), recsSize_nil, Nat.add_zero] at hLen
  rw [← hLen]
  show ps.logSize = _ ↔ _
  constructor
  · exact fun hEq => .inr (.inr hEq.symm)
  · rintro (hLess | hNoCell | hEq)
    · exact absurd hLess hInside
    · unfold boundaryOffset
      rw [if_neg (by omega)]
    · exact hEq.symm

end Compaction

/-! ### Reading a journal -/

/-- What `persist_load` reads where the records were written whole. -/
theorem recover_written {k : Nat} (hTyped : ∀ e ∈ es, e.Typed)
    (hIndex : base + es.length + 1 < 2 ^ 64)
    (hContent : f.content = dead ++ encRecords (base + 1) es ++ replicate k 0) :
    recoverEntries f base dead.length = es.takeWhile (fun e => decide e.Short) := by
  have hFuel : es.length ≤ f.size + 1 := by
    have hLen := congrArg length hContent
    rw [content_length, length_append, length_append, encRecords_length] at hLen
    have hCount := length_le_recsSize es
    omega
  rw [recoverEntries_eq, hContent, append_assoc, drop_left,
    parseRecords_encRecords hTyped (by omega) _ hFuel]
  split
  · rename_i hAll
    rw [parseRecords_zeros (by omega), append_nil]
    exact (takeWhile_eq_self_iff.mpr fun e he => by simpa using hAll e he).symm
  · rfl

/-- **What `persist_load` reads from a journal**: its entries, up to the first over-long one. -/
theorem Journal.recover (h : Journal dead base es ps f) (hBuf : ps.wbuf = [])
    (hTyped : ∀ e ∈ es, e.Typed) (hIndex : base + es.length + 1 < 2 ^ 64) :
    recoverEntries f base dead.length = es.takeWhile (fun e => decide e.Short) := by
  obtain ⟨k, hContent⟩ := h.content_eq hBuf
  exact recover_written hTyped hIndex hContent

/-! ### The functions of the node -/

def Role.demote : Role → Role
  | .leader => .follower
  | r => r

theorem Role.demote_cases (r : Role) : r.demote = r ∨ r.demote = .follower := by
  cases r <;> simp [Role.demote]

theorem storageWriteFailed_eq (n : Node) :
    storageWriteFailed n =
      { n with storageFailed := true, role := n.role.demote
               leaderId := if n.role = .leader then none else n.leaderId } := by
  unfold storageWriteFailed
  cases n.role <;> simp [Role.demote]

/-- Where `persist_write_flush` ends: there was nothing to write, or space was reserved and the
buffer written, or lost. -/
inductive Flushes (n : Node) : Node → Prop
  | idle (hBuf : n.persist.wbuf = []) : Flushes n n
  | write (size : Nat) (effs : List Effect) (hOk : n.io.writeOk = true)
      (hReserved : effs = [] ∨ effs = [.file (.falloc size)]) :
      Flushes n { n with
        persist := { n.persist with
          allocSize := size
          writePos := n.persist.writePos + n.persist.wbuf.length
          wbuf := [] }
        out := n.out ++ effs ++ [.file (.write n.persist.writePos n.persist.wbuf)] }
  | lost (size : Nat) (effs : List Effect) (hBad : ¬ n.io.writeOk = true)
      (hReserved : effs = [] ∨ effs = [.file (.falloc size)]) :
      Flushes n { n with
        storageFailed := true, role := n.role.demote
        leaderId := if n.role = .leader then none else n.leaderId
        persist := { n.persist with allocSize := size, wbuf := [] }
        out := n.out ++ effs }

theorem flushes_persistWriteFlush (n : Node) : Flushes n (persistWriteFlush n) := by
  obtain ⟨size, effs, hReserved, hEq⟩ : ∃ size effs, (effs = [] ∨ effs = [.file (.falloc size)]) ∧
      persistReserve n (n.persist.writePos + n.persist.wbuf.length) =
        { n with persist := { n.persist with allocSize := size }, out := n.out ++ effs } := by
    unfold persistReserve
    split
    · exact ⟨n.persist.allocSize, [], .inl rfl, by rw [append_nil]⟩
    split
    · exact ⟨_, _, .inr rfl, rfl⟩
    · exact ⟨_, [], .inl rfl, by rw [append_nil]⟩
  unfold persistWriteFlush
  dsimp only
  rw [hEq, storageWriteFailed_eq]
  split
  · exact .idle ‹_›
  split
  · exact .write size effs ‹_› hReserved
  · exact .lost size effs ‹_› hReserved

theorem persistWriteFlush_wbuf (n : Node) : (persistWriteFlush n).persist.wbuf = [] := by
  have hFlush := flushes_persistWriteFlush n
  generalize persistWriteFlush n = m at hFlush
  cases hFlush with
  | idle hBuf => exact hBuf
  | write | lost => rfl

/-- A node and a disk on which nothing but the log file changed, and no more than a journal
allows. -/
structure Wrote (n n' : Node) (d d' : Disk) : Prop where
  log : n'.log.entries = n.log.entries ∧ n'.log.baseIndex = n.log.baseIndex
  io : n'.io = n.io
  failed : n'.storageFailed = n.storageFailed
  snap : d'.snap = d.snap
  journal : ∀ {dead : Bytes}, Journal dead n.log.baseIndex n.log.entries n.persist d.log →
    Journal dead n.log.baseIndex n.log.entries n'.persist d'.log

theorem wrote_persistWriteFlush (n : Node) (d : Disk) (hIo : n.io.writeOk = true) :
    ∃ effs, (persistWriteFlush n).out = n.out ++ effs ∧
      Wrote n (persistWriteFlush n) d (d.applyAll effs) := by
  have hFlush := flushes_persistWriteFlush n
  generalize persistWriteFlush n = m at hFlush
  cases hFlush with
  | idle => exact ⟨[], by simp, ⟨rfl, rfl⟩, rfl, rfl, rfl, id⟩
  | write size effs _ hReserved =>
    refine ⟨effs ++ [_], append_assoc .., ⟨rfl, rfl⟩, rfl, rfl, ?_, @fun dead h => ?_⟩
    · rcases hReserved with rfl | rfl <;> rfl
    · rcases hReserved with rfl | rfl
      · have hSized : Journal dead _ _ { n.persist with allocSize := size } d.log :=
          ⟨h.baseEq, h.size, h.fits, h.bytes, h.zeros, h.offsets⟩
        exact hSized.flush
      · exact (h.reserve size).flush
  | lost _ _ hBad => exact absurd hIo hBad

theorem wrote_persistSync (n : Node) (d : Disk) (hIo : n.io = {}) (hOk : n.storageFailed = false) :
    ∃ effs, (persistSync n).out = n.out ++ effs ∧
      Wrote n (persistSync n) d (d.applyAll effs) ∧ (persistSync n).persist.wbuf = [] ∧
      (persistSync n).log.durableIndex = n.log.lastIndex := by
  obtain ⟨effs, hOut, hLog, hIoEq, hFailed, hSnap, hJournal⟩ :=
    wrote_persistWriteFlush n d (by rw [hIo])
  have hBuf := persistWriteFlush_wbuf n
  have hLast : (persistWriteFlush n).log.lastIndex = n.log.lastIndex := by
    unfold Log.lastIndex
    rw [hLog.1, hLog.2]
  unfold persistSync
  generalize persistWriteFlush n = m at *
  dsimp only
  rw [if_neg (by rw [hFailed, hOk]; exact Bool.false_ne_true)]
  split
  · rw [if_pos (by rw [hIoEq, hIo])]
    refine ⟨effs ++ [.fsync], ?_, ⟨hLog, hIoEq, hFailed, ?_, fun h => ?_⟩, hBuf, hLast⟩
    · rw [← append_assoc, ← hOut]
      rfl
    · rw [← hSnap, Disk.applyAll, foldl_append]
      rfl
    · obtain ⟨hBase, hSize, hFits, hBytes, hZeros, hOffsets⟩ := hJournal h
      rw [Disk.applyAll, foldl_append]
      exact ⟨hBase, hSize, hFits, hBytes, hZeros, hOffsets⟩
  · exact ⟨effs, hOut, ⟨hLog, hIoEq, hFailed, hSnap, hJournal⟩, hBuf, hLast⟩

/-! ### Start-up -/

theorem load_content (f : LogFile) (base off : Nat) :
    (f.truncate (off + recsSize (recoverEntries f base off))).content =
      (f.truncate off).content ++ encRecords (base + 1) (recoverEntries f base off) := by
  obtain ⟨⟨rest, hRest⟩, -⟩ := encRecords_parseRecords (f.size + 1) (base + 1) (f.content.drop off)
  rw [← recoverEntries_eq] at hRest
  set es := recoverEntries f base off with hes
  have hLen := content_length f
  have hEnc := encRecords_length (base + 1) es
  rw [truncate_content, truncate_content]
  cases hCase : es with
  | nil => simp [encRecords]
  | cons e tail =>
    rw [← hCase]
    -- a record was read, so the file reaches behind the base offset
    have hTotal := congrArg length hRest
    rw [length_drop, length_append, hEnc] at hTotal
    have hPos : 0 < recsSize es := by
      rw [hCase, recsSize_cons, recSize, clRecHdr]
      omega
    rw [Nat.sub_eq_zero_of_le (by omega), Nat.sub_eq_zero_of_le (by omega), take_add,
      hRest, ← hEnc, take_left]
    simp

/-- **`persist_load` establishes the journal, whatever the file contains.** -/
theorem journal_load (n : Node) (d : Disk) (hBuf : n.persist.wbuf = [])
    (hBase : n.persist.baseIndex = n.log.baseIndex) :
    ∃ dead, dead.length = (persistLoad n d).persist.baseOffset ∧
      Journal dead (persistLoad n d).log.baseIndex (persistLoad n d).log.entries
        (persistLoad n d).persist (d.log.truncate (persistLoad n d).persist.logSize) := by
  -- the boundary, from the snapshot if there is one
  obtain ⟨m, es, hmBuf, hmBase, hes, hEq⟩ : ∃ (m : Node) (es : List Entry),
      m.persist.wbuf = [] ∧ m.persist.baseIndex = m.log.baseIndex ∧
      es = recoverEntries d.log m.log.baseIndex m.persist.baseOffset ∧ persistLoad n d =
        { m with
          log := { m.log with entries := es, durableIndex := m.log.baseIndex + es.length }
          persist := { offEnsure m.persist es.length with
            offsets := recOffsets m.persist.baseOffset es ++
              (offEnsure m.persist es.length).offsets.drop es.length
            logSize := m.persist.baseOffset + recsSize es
            writePos := m.persist.baseOffset + recsSize es
            allocSize := m.persist.baseOffset + recsSize es } }.emit
          (.file (.truncate (m.persist.baseOffset + recsSize es))) := by
    unfold persistLoad
    cases d.snap with
    | none => exact ⟨{ n with term := d.term, votedFor := d.votedFor }, _, hBuf, hBase, rfl, rfl⟩
    | some s =>
      exact ⟨{ n with
        term := d.term, votedFor := d.votedFor
        applied := loadSnapshot n.applied s
        log := { n.log with baseIndex := s.baseIndex, baseTerm := s.baseTerm
                            appliedIndex := s.baseIndex, compactedTo := s.baseIndex }
        persist := { n.persist with baseIndex := s.baseIndex, baseOffset := s.baseOffset } },
        _, hBuf, rfl, rfl, rfl⟩
  have hContent := load_content d.log m.log.baseIndex m.persist.baseOffset
  rw [← hes] at hContent
  obtain ⟨cells, hEnsure, -⟩ := offEnsure_facts m.persist es.length
  rw [hEnsure] at hEq
  rw [hEq]
  have hDead : (d.log.truncate m.persist.baseOffset).content.length = m.persist.baseOffset :=
    content_length _
  have hWhole : (d.log.truncate (m.persist.baseOffset + recsSize es)).content.length =
      m.persist.baseOffset + recsSize es := content_length _
  refine ⟨(d.log.truncate m.persist.baseOffset).content, hDead, hmBase, ?_, Nat.le_refl _, ?_,
    ?_, ?_⟩
  · simp [Node.emit, hmBuf]
  · simp only [Node.emit, hmBuf, append_nil]
    rw [← hContent]
    exact take_of_length_le hWhole.le
  · intro b hb
    simp only [Node.emit] at hb
    rw [drop_eq_nil_of_le hWhole.le] at hb
    cases hb
  · rw [hDead]
    exact prefix_append _ _

end Operations

end BeaverMQ
