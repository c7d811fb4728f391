import BeaverMQ.Lib.Framing
import BeaverMQ.Model.Mesh

/-!
# BeaverMQ — draining the receive buffer of a link

What arrives on a link is cut into reads anywhere. `cl_drain_frames` takes the complete frames off
the front of the buffer and keeps the rest for the next read, so the frames it dispatches are those
of the whole stream (`Framing.all_append`). The offset it walks with is right as long as the buffer
is there; the dispatch of a HELLO that does not verify frees it.
-/

namespace BeaverMQ

open List

/-! ## Frames of a stream -/

theorem byteAt_append {p : Bytes} {i : Nat} (hi : i < p.length) (more : Bytes) :
    byteAt (p ++ more) i = byteAt p i := by
  unfold byteAt
  rw [getD_eq_getElem?_getD, getD_eq_getElem?_getD, getElem?_append_left hi]

theorem be32At_append {p : Bytes} {i : Nat} (hi : i + 4 ≤ p.length) (more : Bytes) :
    be32At (p ++ more) i = be32At p i := by
  unfold be32At
  rw [drop_append_of_le_length (by omega), take_append_of_le_length (by simp; omega)]

theorem clusterHdrParse_append {p : Bytes} (hLong : clusterHdrSize ≤ p.length) (more : Bytes) :
    clusterHdrParse (p ++ more) = clusterHdrParse p := by
  have hSize : clusterHdrSize = 16 := rfl
  have hWhole : ¬ p.length < clusterHdrSize := by omega
  have hMore : ¬ (p ++ more).length < clusterHdrSize := by rw [length_append]; omega
  unfold clusterHdrParse
  rw [if_neg hWhole, if_neg hMore, byteAt_append (by omega), byteAt_append (by omega),
    byteAt_append (by omega), byteAt_append (by omega), be32At_append (by omega),
    be32At_append (by omega), be32At_append (by omega)]

variable {buf rest b : Bytes} {off : Nat} {v : DrainVars} {l : PeerLink} {fs : List RawFrame}
  {chunks : List Bytes}

theorem nextFrame_frame_iff {f : RawFrame} :
    nextFrame buf = .frame f rest ↔
      clusterHdrSize + f.hdr.length ≤ buf.length ∧ clusterHdrParse buf = some f.hdr ∧
        f.payload = (buf.drop clusterHdrSize).take f.hdr.length ∧
        clusterCrc32 f.payload = f.hdr.crc32 ∧ rest = buf.drop (clusterHdrSize + f.hdr.length) := by
  unfold nextFrame
  constructor
  · intro h
    split at h
    · cases h
    split at h
    · cases h
    rename_i hdr hParse
    split at h
    · cases h
    rename_i hWhole
    dsimp only at h
    split at h
    · cases h
    rename_i hCrc
    cases h
    exact ⟨Nat.le_of_not_lt hWhole, hParse, rfl, not_not.mp hCrc, rfl⟩
  · rintro ⟨hWhole, hParse, hPayload, hCrc, rfl⟩
    rw [if_neg (by omega), hParse]
    dsimp only
    rw [if_neg (by omega), ← hPayload, if_neg (not_not.mpr hCrc)]

theorem nextFrame_bad_iff :
    nextFrame buf = .bad ↔ clusterHdrSize ≤ buf.length ∧
      (clusterHdrParse buf = none ∨ ∃ h, clusterHdrParse buf = some h ∧
        clusterHdrSize + h.length ≤ buf.length ∧
        clusterCrc32 ((buf.drop clusterHdrSize).take h.length) ≠ h.crc32) := by
  unfold nextFrame
  constructor
  · intro h
    split at h
    · cases h
    rename_i hLong
    refine ⟨by omega, ?_⟩
    split at h
    · rename_i hParse
      exact .inl hParse
    rename_i hdr hParse
    split at h
    · cases h
    rename_i hWhole
    dsimp only at h
    split at h
    · rename_i hCrc
      exact .inr ⟨hdr, hParse, by omega, hCrc⟩
    · cases h
  · rintro ⟨hLong, hBad⟩
    rw [if_neg (by omega)]
    rcases hBad with hParse | ⟨h, hParse, hWhole, hCrc⟩
    · rw [hParse]
    rw [hParse]
    dsimp only
    rw [if_neg (by omega), if_pos hCrc]

def meshNext (buf : Bytes) : Framing.Front UInt8 RawFrame :=
  match nextFrame buf with
  | .wait => .wait
  | .bad => .bad
  | .frame f rest => .item f rest

theorem meshNext_shorter {l : Bytes} {f : RawFrame} {rest : Bytes} (h : meshNext l = .item f rest) :
    rest.length < l.length := by
  unfold meshNext at h
  split at h <;> cases h
  rename_i hNext
  obtain ⟨hWhole, -, -, -, rfl⟩ := nextFrame_frame_iff.mp hNext
  rw [length_drop]
  have hSize : clusterHdrSize = 16 := rfl
  omega

theorem meshNext_item {l : Bytes} {f : RawFrame} {rest : Bytes} (h : meshNext l = .item f rest)
    (more : Bytes) : meshNext (l ++ more) = .item f (rest ++ more) := by
  unfold meshNext at h ⊢
  split at h <;> cases h
  rename_i hNext
  obtain ⟨hWhole, hParse, hPayload, hCrc, rfl⟩ := nextFrame_frame_iff.mp hNext
  have hMore : nextFrame (l ++ more) =
      .frame f (l.drop (clusterHdrSize + f.hdr.length) ++ more) := by
    refine nextFrame_frame_iff.mpr ⟨?_, ?_, ?_, hCrc, ?_⟩
    · rw [length_append]
      omega
    · rw [clusterHdrParse_append (by omega), hParse]
    · rw [drop_append_of_le_length (by omega),
        take_append_of_le_length (by rw [length_drop]; omega), hPayload]
    · rw [drop_append_of_le_length (by omega)]
  rw [hMore]

theorem meshNext_bad {l : Bytes} (h : meshNext l = .bad) (more : Bytes) :
    meshNext (l ++ more) = .bad := by
  unfold meshNext at h ⊢
  split at h <;> cases h
  rename_i hNext
  obtain ⟨hLong, hBad⟩ := nextFrame_bad_iff.mp hNext
  have hMore : nextFrame (l ++ more) = .bad := by
    refine nextFrame_bad_iff.mpr ⟨by rw [length_append]; omega, ?_⟩
    rw [clusterHdrParse_append hLong]
    refine hBad.imp id ?_
    rintro ⟨hdr, hParse, hWhole, hCrc⟩
    refine ⟨hdr, hParse, by rw [length_append]; omega, ?_⟩
    rw [drop_append_of_le_length (by omega),
      take_append_of_le_length (by rw [length_drop]; omega)]
    exact hCrc
  rw [hMore]

def meshFraming : Framing UInt8 RawFrame where
  next := meshNext
  shorter := @meshNext_shorter
  item_append := @meshNext_item
  bad_append := @meshNext_bad

/-- The complete frames at the front of a stream, up to the first bad one. -/
def framesOf (stream : Bytes) : List RawFrame := (meshFraming.all stream).1

theorem all_wait (h : nextFrame buf = .wait) : meshFraming.all buf = ([], some buf) := by
  have hCut : meshFraming.next buf = .wait := by simp [meshFraming, meshNext, h]
  rw [Framing.all_eq, hCut]

theorem all_bad (h : nextFrame buf = .bad) : meshFraming.all buf = ([], none) := by
  have hCut : meshFraming.next buf = .bad := by simp [meshFraming, meshNext, h]
  rw [Framing.all_eq, hCut]

theorem all_frame {f : RawFrame} (h : nextFrame buf = .frame f rest) :
    meshFraming.all buf = (f :: (meshFraming.all rest).1, (meshFraming.all rest).2) := by
  have hCut : meshFraming.next buf = .item f rest := by simp [meshFraming, meshNext, h]
  rw [Framing.all_eq, hCut]

/-! ## One pass over the buffer -/

/-- HELLO and HELLO_ACK that do not prove the peer's identity make `cl_dispatch` drop the link. -/
def dropsLink (secret : Bytes) (p : Nat) (f : RawFrame) : Bool :=
  match FrameType.ofCode f.hdr.type with
  | some .hello => helloPayloadVerify secret FrameType.hello.code f.payload ≠ some p
  | some .helloAck => helloPayloadVerify secret FrameType.helloAck.code f.payload ≠ some p
  | _ => false

theorem dispatchRaw_dropped (secret : Bytes) (n : Node) (p : Nat) (f : RawFrame) :
    (dispatchRaw secret n p f).2 = dropsLink secret p f := by
  unfold dispatchRaw dropsLink
  cases FrameType.ofCode f.hdr.type with
  | none => rfl
  | some type =>
    cases type with
    | hello | helloAck =>
      dsimp only
      split
      · rename_i hOk
        rw [hOk]
        simp
      · rename_i hBad
        simp [hBad]
    | _ => rfl

variable {secret : Bytes} {p : Nat}

/-- A pass that stands at `off` in the buffer `b`. -/
def DrainVars.at (v : DrainVars) (b : Bytes) (off : Nat) : DrainVars :=
  { v with rbuf := some b, len := b.length, off }

/-- **One turn of `cl_drain_frames`.** -/
theorem drainLoop_turn (v : DrainVars) (hOff : off ≤ b.length) (k : Nat) :
    drainLoop secret p (k + 1) (v.at b off) =
      let v := { v with tests := v.tests ++ [(off, b.length)] }
      match nextFrame (b.drop off) with
      | .wait => drainCompact (v.at b off)
      | .bad => (v.at b off, .error)
      | .frame f _ => drainLoop secret p k
          { node := (dispatchRaw secret v.node p f).1
            rbuf := if dropsLink secret p f then none else some b
            len := if dropsLink secret p f then 0 else b.length
            off := off + (clusterHdrSize + f.hdr.length)
            tests := v.tests
            dispatched := v.dispatched ++ [f] } := by
  have hLeft : sub64 b.length off = (b.drop off).length := by
    unfold sub64
    rw [if_pos hOff, length_drop]
  have hRoom : ∀ m, b.length < off + m ↔ (b.drop off).length < m := by
    intro m
    rw [length_drop]
    omega
  rw [drainLoop]
  unfold nextFrame DrainVars.at
  dsimp only
  rw [hLeft]
  split
  · rfl
  rename_i hLong
  rw [if_neg (by rw [hRoom]; exact hLong)]
  cases hParse : clusterHdrParse (b.drop off) with
  | none => rfl
  | some h =>
    dsimp only
    split
    · rfl
    rename_i hWhole
    rw [if_neg (by rw [hRoom]; exact hWhole)]
    split
    · rfl
    · dsimp only
      rw [dispatchRaw_dropped]

theorem drainCompact_at (v : DrainVars) (b : Bytes) (off : Nat) :
    ∃ v', drainCompact (v.at b off) = (v', .ok) ∧ v'.rbuf = some (b.drop off) ∧
      v'.tests = v.tests ∧ v'.dispatched = v.dispatched := by
  unfold drainCompact DrainVars.at
  dsimp only
  split
  · rename_i hZero
    exact ⟨_, rfl, by rw [hZero]; rfl, rfl, rfl⟩
  · exact ⟨_, rfl, rfl, rfl, rfl⟩

theorem drainLoop_freed (hFreed : v.rbuf = none) (hOff : v.off ≠ 0) (k : Nat) :
    drainLoop secret p (k + 1) v = ({ v with tests := v.tests ++ [(v.off, v.len)] }, .fault) := by
  rw [drainLoop]
  unfold drainCompact
  dsimp only
  rw [hFreed, if_neg hOff]
  split
  · rfl
  · rfl

/-- **One pass.** Frames that keep the link are all dispatched, in order, with the offset inside of
the buffer, and what is behind them is left. A frame that drops the link takes the buffer away: the
next test stands behind its end, and what follows is a read outside of it. -/
theorem drain_pass (secret : Bytes) (p : Nat) {k : Nat} (hOff : off ≤ b.length)
    (hTurns : (b.drop off).length + 1 < k) :
    ∃ v' ret, drainLoop secret p k (v.at b off) = (v', ret) ∧
      if (framesOf (b.drop off)).any (dropsLink secret p) then
        ret = .fault ∧ ∃ t ∈ v'.tests, ¬ t.1 ≤ t.2
      else
        v'.dispatched = v.dispatched ++ framesOf (b.drop off) ∧
        ((∀ t ∈ v.tests, t.1 ≤ t.2) → ∀ t ∈ v'.tests, t.1 ≤ t.2) ∧
        match (meshFraming.all (b.drop off)).2 with
        | none => ret = .error
        | some rest => ret = .ok ∧ v'.rbuf = some rest := by
  induction k generalizing off v with
  | zero => exact absurd hTurns (Nat.not_lt_zero _)
  | succ k ih =>
    have hTests : (∀ t ∈ v.tests, t.1 ≤ t.2) → ∀ t ∈ v.tests ++ [(off, b.length)], t.1 ≤ t.2 :=
      fun h => forall_mem_append.mpr ⟨h, forall_mem_singleton.mpr hOff⟩
    rw [drainLoop_turn v hOff]
    unfold framesOf at ih ⊢
    dsimp only
    cases hNext : nextFrame (b.drop off) with
    | wait =>
      rw [all_wait hNext]
      obtain ⟨v', hEnd, hBuf, hGrow, hFrames⟩ :=
        drainCompact_at { v with tests := v.tests ++ [(off, b.length)] } b off
      exact ⟨v', .ok, hEnd, hFrames.trans (append_nil _).symm, hGrow ▸ hTests, rfl, hBuf⟩
    | bad =>
      rw [all_bad hNext]
      exact ⟨_, _, rfl, (append_nil _).symm, hTests, rfl⟩
    | frame f rest =>
      rw [all_frame hNext, any_cons]
      obtain ⟨hWhole, -, -, -, hRest⟩ := nextFrame_frame_iff.mp hNext
      rw [length_drop] at hWhole hTurns
      rw [drop_drop] at hRest
      have hSize : clusterHdrSize = 16 := rfl
      dsimp only
      cases hThis : dropsLink secret p f with
      | true =>
        obtain ⟨k, rfl⟩ : ∃ m, k = m + 1 := ⟨k - 1, by omega⟩
        rw [if_pos rfl, if_pos rfl,
          drainLoop_freed rfl (show off + (clusterHdrSize + f.hdr.length) ≠ 0 by omega) k]
        refine ⟨_, _, rfl, rfl, (off + (clusterHdrSize + f.hdr.length), 0),
          mem_append_right _ (mem_singleton_self _), ?_⟩
        show ¬ off + (clusterHdrSize + f.hdr.length) ≤ 0
        omega
      | false =>
        -- the next turn finds the same buffer, behind the frame
        obtain ⟨v', ret, hLoop, hEnd⟩ :=
          ih (show off + (clusterHdrSize + f.hdr.length) ≤ b.length by omega)
            (v := { node := (dispatchRaw secret v.node p f).1, rbuf := none, len := 0
                    tests := v.tests ++ [(off, b.length)], dispatched := v.dispatched ++ [f] })
            (by rw [length_drop]; omega)
        refine ⟨v', ret, hLoop, ?_⟩
        rw [Bool.false_or, hRest]
        cases hAny : (meshFraming.all (b.drop (off + (clusterHdrSize + f.hdr.length)))).1.any
            (dropsLink secret p) with
        | true =>
          rw [hAny] at hEnd
          exact hEnd
        | false =>
          rw [hAny] at hEnd
          obtain ⟨hFrames, hInside, hLeft⟩ := hEnd
          refine ⟨?_, hInside ∘ hTests, hLeft⟩
          rw [hFrames, append_assoc]
          rfl

/-! ## Reads -/

/-- What a link is after it was fed bytes: it saw `stream` since its record was `fs`. -/
structure Drained (l : PeerLink) (fs : List RawFrame) (stream : Bytes) : Prop where
  tests : ∀ t ∈ l.tests, t.1 ≤ t.2
  defined : l.broken = false
  frames : l.dispatched = fs ++ framesOf stream
  left : (meshFraming.all stream).2 = if l.reading then some l.rbuf else none

theorem Drained.still_open {stream : Bytes}
    (h : Drained l fs stream) (hLeft : (meshFraming.all stream).2 = some rest) :
    l.reading = true ∧ l.rbuf = rest := by
  have hEnd := h.left
  rw [hLeft] at hEnd
  cases hOpen : l.reading with
  | false =>
    rw [hOpen] at hEnd
    cases hEnd
  | true =>
    rw [hOpen] at hEnd
    exact ⟨rfl, (Option.some.inj hEnd).symm⟩

theorem Drained.now_closed {stream : Bytes}
    (h : Drained l fs stream) (hLeft : (meshFraming.all stream).2 = none) : l.reading = false := by
  have hEnd := h.left
  rw [hLeft] at hEnd
  cases hOpen : l.reading with
  | false => rfl
  | true =>
    rw [hOpen] at hEnd
    cases hEnd

/-- One read: the link has drained what it holds and the new bytes, or it is broken and closed. -/
theorem read_pass (secret : Bytes) (p : Nat) {bs : Bytes} (hReading : l.reading = true)
    (hSome : bs ≠ []) (hTests : ∀ t ∈ l.tests, t.1 ≤ t.2) :
    if (framesOf (l.rbuf ++ bs)).any (dropsLink secret p) then
      (l.read secret p bs).reading = false ∧ ∃ t ∈ (l.read secret p bs).tests, ¬ t.1 ≤ t.2
    else Drained (l.read secret p bs) l.dispatched (l.rbuf ++ bs) := by
  obtain ⟨v, ret, hLoop, hEnd⟩ :=
    drain_pass secret p (k := (l.rbuf ++ bs).length + 2) (b := l.rbuf ++ bs)
      (v := { node := l.node, rbuf := none, len := 0, tests := l.tests
              dispatched := l.dispatched }) (Nat.zero_le _) (by rw [drop_zero]; omega)
  rw [drop_zero] at hEnd
  have hRead : drainLoop secret p ((l.rbuf ++ bs).length + 2)
      { node := l.node, rbuf := some (l.rbuf ++ bs), len := (l.rbuf ++ bs).length, tests := l.tests
        dispatched := l.dispatched } = (v, ret) := hLoop
  have hBusy : ¬ (l.reading = false ∨ bs = []) := by simp [hReading, hSome]
  unfold PeerLink.read
  rw [if_neg hBusy]
  dsimp only
  rw [hRead]
  cases hAny : (framesOf (l.rbuf ++ bs)).any (dropsLink secret p) with
  | true =>
    rw [hAny] at hEnd
    obtain ⟨rfl, hOutside⟩ := hEnd
    exact ⟨rfl, hOutside⟩
  | false =>
    rw [hAny] at hEnd
    obtain ⟨hFrames, hInside, hLast⟩ := hEnd
    cases hLeft : (meshFraming.all (l.rbuf ++ bs)).2 with
    | none =>
      rw [hLeft] at hLast
      obtain rfl : ret = .error := hLast
      exact ⟨hInside hTests, rfl, hFrames, hLeft⟩
    | some rest =>
      rw [hLeft] at hLast
      obtain ⟨rfl, hBuf⟩ : ret = .ok ∧ v.rbuf = some rest := hLast
      refine ⟨hInside hTests, rfl, hFrames, ?_⟩
      rw [hLeft, hBuf]
      rfl

theorem reads_idle (hIdle : l.reading = false ∨ chunks.flatten = []) :
    chunks.foldl (PeerLink.read secret p) l = l := by
  induction chunks with
  | nil => rfl
  | cons bs chunks ih =>
    have hNone : l.reading = false ∨ bs = [] :=
      hIdle.imp_right fun hFlat => (append_eq_nil_iff.mp hFlat).1
    have hRead : l.read secret p bs = l := if_pos hNone
    rw [foldl_cons, hRead]
    exact ih (hIdle.imp_right fun hFlat => (append_eq_nil_iff.mp hFlat).2)

theorem framesOf_append {a : Bytes} (hLeft : (meshFraming.all a).2 = some rest) :
    framesOf (a ++ b) = framesOf a ++ framesOf (rest ++ b) ∧
      (meshFraming.all (a ++ b)).2 = (meshFraming.all (rest ++ b)).2 := by
  unfold framesOf
  rw [meshFraming.all_append a b, hLeft]
  exact ⟨rfl, rfl⟩

theorem framesOf_broken {a : Bytes} (hLeft : (meshFraming.all a).2 = none) :
    framesOf (a ++ b) = framesOf a ∧ (meshFraming.all (a ++ b)).2 = none := by
  unfold framesOf
  rw [meshFraming.all_append a b, hLeft]
  exact ⟨rfl, rfl⟩

/-- **However the bytes are cut into reads**, frames that keep the link are dispatched as one
stream, and a frame that drops it is met by some read. -/
theorem reads_pass (secret : Bytes) (p : Nat) (hReading : l.reading = true)
    (hFed : chunks.flatten ≠ []) (hTests : ∀ t ∈ l.tests, t.1 ≤ t.2) :
    if (framesOf (l.rbuf ++ chunks.flatten)).any (dropsLink secret p) then
      ∃ t ∈ (chunks.foldl (PeerLink.read secret p) l).tests, ¬ t.1 ≤ t.2
    else Drained (chunks.foldl (PeerLink.read secret p) l) l.dispatched
      (l.rbuf ++ chunks.flatten) := by
  induction chunks generalizing l with
  | nil => exact absurd rfl hFed
  | cons bs chunks ih =>
    rw [flatten_cons] at hFed ⊢
    rw [foldl_cons]
    by_cases hNone : bs = []
    · have hRead : l.read secret p bs = l := if_pos (.inr hNone)
      rw [hRead]
      rw [hNone, nil_append] at hFed ⊢
      exact ih hReading hFed hTests
    rw [← append_assoc]
    have hFirst := read_pass secret p hReading hNone hTests
    cases hAny : (framesOf (l.rbuf ++ bs)).any (dropsLink secret p) with
    | true =>
      -- the link is broken and closed, and the rest is never read
      rw [hAny] at hFirst
      obtain ⟨hClosed, hOutside⟩ := hFirst
      rw [reads_idle (.inl hClosed), if_pos]
      · exact hOutside
      · cases hLeft : (meshFraming.all (l.rbuf ++ bs)).2 with
        | none => rw [(framesOf_broken hLeft).1, hAny]
        | some rest => rw [(framesOf_append hLeft).1, any_append, hAny, Bool.true_or]
    | false =>
      rw [hAny] at hFirst
      cases hLeft : (meshFraming.all (l.rbuf ++ bs)).2 with
      | none =>
        obtain ⟨hFrames, hRest⟩ := framesOf_broken (b := chunks.flatten) hLeft
        have hClosed := hFirst.now_closed hLeft
        rw [reads_idle (.inl hClosed), hFrames, hAny]
        exact ⟨hFirst.tests, hFirst.defined, by rw [hFirst.frames, hFrames],
          by rw [hRest, hClosed]; rfl⟩
      | some rest =>
        obtain ⟨hFrames, hRest⟩ := framesOf_append (b := chunks.flatten) hLeft
        obtain ⟨hOpen, hBuf⟩ := hFirst.still_open hLeft
        by_cases hDone : chunks.flatten = []
        · rw [reads_idle (.inr hDone), hDone, append_nil, hAny]
          exact hFirst
        have hLater := ih hOpen hDone hFirst.tests
        rw [hBuf] at hLater
        rw [hFrames, any_append, hAny, Bool.false_or]
        cases hThen : (framesOf (rest ++ chunks.flatten)).any (dropsLink secret p) with
        | true =>
          rw [hThen] at hLater
          exact hLater
        | false =>
          rw [hThen] at hLater
          refine ⟨hLater.tests, hLater.defined, ?_, hRest.trans hLater.left⟩
          rw [hLater.frames, hFirst.frames, hFrames, append_assoc]

/-! ## The drain -/

def upToDrop (secret : Bytes) (p : Nat) (fs : List RawFrame) : List RawFrame :=
  fs.take (fs.findIdx (dropsLink secret p) + 1)

/-- What the drain of a link is to be, for the bytes `stream` it was fed: the offset stays inside of
the buffer, no read is outside of it, and what is dispatched are the complete good frames in order,
up to one that drops the link. A link that is still read holds what is left of the stream. -/
structure WellDrained (secret : Bytes) (p : Nat) (l : PeerLink) (stream : Bytes) : Prop where
  tests : ∀ t ∈ l.tests, t.1 ≤ t.2
  defined : l.broken = false
  frames : l.dispatched = upToDrop secret p (framesOf stream)
  left : l.reading = true → (meshFraming.all stream).2 = some l.rbuf

theorem upToDrop_eq (hKeep : ∀ f ∈ fs, dropsLink secret p f = false) :
    upToDrop secret p fs = fs := by
  unfold upToDrop
  rw [findIdx_eq_length.mpr hKeep]
  exact take_of_length_le (Nat.le_succ _)

/-- **The drain is well formed exactly when no frame drops the link.** For every peer state and
every way to cut the bytes into reads: an invalid HELLO or HELLO_ACK among the good frames makes the
loop go on behind the end of the buffer that its dispatch has freed. -/
theorem mesh_draining_iff (secret : Bytes) (p : Nat) (node : Node) (rbuf : Bytes)
    (chunks : List Bytes) (hFed : chunks.flatten ≠ []) :
    WellDrained secret p (chunks.foldl (PeerLink.read secret p) { node, rbuf })
        (rbuf ++ chunks.flatten) ↔
      ∀ f ∈ framesOf (rbuf ++ chunks.flatten), dropsLink secret p f = false := by
  have hReads := reads_pass secret p (l := { node, rbuf }) rfl hFed (fun t ht => nomatch ht)
  constructor
  · intro hWell f hf
    refine Bool.eq_false_iff.mpr fun hDrop => ?_
    rw [if_pos (any_eq_true.mpr ⟨f, hf, hDrop⟩)] at hReads
    obtain ⟨t, hMem, hOutside⟩ := hReads
    exact hOutside (hWell.tests t hMem)
  · intro hKeep
    rw [if_neg (by simpa using hKeep)] at hReads
    refine ⟨hReads.tests, hReads.defined, ?_, ?_⟩
    · rw [hReads.frames, upToDrop_eq hKeep]
      rfl
    · intro hReading
      rw [hReads.left, hReading]
      rfl

/-- A FORWARD_ACK cut in the middle of its header. -/
theorem mesh_draining_split : let bytes := RawFrame.encode FrameType.forwardAck.code 0 1 []
    let node : Node := { cfg := { selfId := 0, nnodes := 2 } }
    WellDrained [1, 2] 1 ([bytes.take 5, bytes.drop 5].foldl (PeerLink.read [1, 2] 1)
      { node, rbuf := [] }) bytes ∧ framesOf bytes = [⟨⟨23, 0, 1, 0, 0⟩, []⟩] := by
  intro bytes node
  have hFrames : framesOf bytes = [⟨⟨23, 0, 1, 0, 0⟩, []⟩] := by decide +kernel
  refine ⟨?_, hFrames⟩
  refine (mesh_draining_iff [1, 2] 1 node [] [bytes.take 5, bytes.drop 5] (by decide +kernel)).mpr ?_
  intro f hf
  have hMem : f ∈ framesOf bytes := hf
  rw [hFrames, mem_singleton] at hMem
  rw [hMem]
  decide +kernel

/-- An empty HELLO on a bound link: the buffer is freed, and the loop goes on at offset 16 of
nothing. -/
theorem mesh_draining_freed : let bytes := RawFrame.encode FrameType.hello.code 0 1 []
    let node : Node := { cfg := { selfId := 0, nnodes := 2 } }
    let l := PeerLink.read [1, 2] 1 { node, rbuf := [] } bytes
    l.broken = true ∧ l.tests = [(0, 16), (16, 0)] := by
  decide +kernel

end BeaverMQ
