import BeaverMQ.Consensus.Handlers

/-!
# BeaverMQ — the stream of a state transfer

A leader that re-seeds a peer walks over its queues and sends their replicated messages up to the
boundary in capped SNAP_CHUNK frames. `snap_pump` stops whenever the window is full and is entered
again with each SNAP_ACK. What the cursor still has to send, behind what was sent, is always the
whole dump. The queues that are dumped stay as they are between the calls.
-/

namespace BeaverMQ

open List

/-! ## The stream -/

def isChunk : Frame → Bool
  | .snapChunk _ _ => true
  | _ => false

def isEnd : Frame → Bool
  | .snapEnd _ => true
  | _ => false

def chunkRecords (fs : List Frame) : List SnapRec :=
  fs.flatMap fun
    | .snapChunk _ recs => recs
    | _ => []

/-- What a cursor has still to send. While it has messages, the first queue is theirs. -/
def SnapCursor.remaining (dump : Bytes × Nat → List SnapRec) (s : SnapCursor) : List SnapRec :=
  if s.msgs = [] then s.queues.flatMap dump else s.msgs ++ s.queues.tail.flatMap dump

/-- The cursor `s` after the frames `fs` and `acks` acknowledgements. -/
structure Streaming (dump : Bytes × Nat → List SnapRec) (total : List SnapRec) (s : SnapCursor)
    (fs : List Frame) (acks : Nat) : Prop where
  records : chunkRecords fs ++ s.remaining dump = total
  window : s.unackedChunks ≤ clSnapWindow
  acked : fs.countP isChunk ≤ acks + s.unackedChunks
  filled : fs.countP isChunk ≤ (chunkRecords fs).length
  opened : s.endSent = false →
    fs.countP isChunk = acks + s.unackedChunks ∧ fs.countP isEnd = 0
  closed : s.endSent = true →
    s.remaining dump = [] ∧ fs.countP isEnd = 1 ∧ ∃ t, fs.getLast? = some (.snapEnd t)

/-! ## One turn of the pump -/

theorem snapLoad_cases (b : Broker) (base : Nat) (refs : List (Bytes × Nat)) :
    (snapLoad b base refs = ([], []) ∧ refs.flatMap (queueDump b base) = []) ∨
      ∃ ref rest, snapLoad b base refs = (ref :: rest, queueDump b base ref) ∧
        queueDump b base ref ≠ [] ∧ (ref :: rest) <:+ refs ∧
        refs.flatMap (queueDump b base) =
          queueDump b base ref ++ rest.flatMap (queueDump b base) := by
  induction refs with
  | nil => exact .inl ⟨rfl, rfl⟩
  | cons ref refs ih =>
    unfold snapLoad
    rw [flatMap_cons]
    cases hDump : queueDump b base ref with
    | nil =>
      rcases ih with ⟨hLoad, hNone⟩ | ⟨ref', rest, hLoad, hSome, hSuffix, hAll⟩
      · exact .inl ⟨hLoad, hNone⟩
      · exact .inr ⟨ref', rest, hLoad, hSome, hSuffix.trans (suffix_cons _ _), hAll⟩
    | cons r recs =>
      exact .inr ⟨ref, refs, by rw [hDump], by rw [hDump]; simp, suffix_refl _, by rw [hDump]⟩

theorem takeChunk_isPrefix (msgs : List SnapRec) (cnt size : Nat) :
    takeChunk msgs cnt size <+: msgs := by
  induction msgs generalizing cnt size with
  | nil => exact nil_prefix
  | cons r rs ih =>
    unfold takeChunk
    split
    · exact cons_prefix_cons.mpr ⟨rfl, ih _ _⟩
    · exact nil_prefix

theorem takeChunk_ne_nil {msgs : List SnapRec} (hMsgs : msgs ≠ []) (size : Nat) :
    takeChunk msgs 0 size ≠ [] := by
  cases msgs with
  | nil => exact absurd rfl hMsgs
  | cons r rs =>
    unfold takeChunk
    rw [if_pos (.inl rfl)]
    exact cons_ne_nil _ _

/-- The cursor when the pump has made sure of a current message array. -/
def SnapCursor.loaded (b : Broker) (s : SnapCursor) : SnapCursor :=
  if s.msgs = [] then
    { s with queues := (snapLoad b s.base s.queues).1, msgs := (snapLoad b s.base s.queues).2 }
  else s

variable {b : Broker} {dump : Bytes × Nat → List SnapRec} {total : List SnapRec}
  {s : SnapCursor} {fs : List Frame} {acks : Nat}

theorem remaining_loaded (hDump : ∀ ref ∈ s.queues, queueDump b s.base ref = dump ref) :
    (s.loaded b).remaining dump = s.remaining dump ∧
      ((s.loaded b).msgs = [] → s.remaining dump = []) ∧
      (s.loaded b).queues <:+ s.queues := by
  unfold SnapCursor.loaded
  by_cases hMsgs : s.msgs = []
  · rw [if_pos hMsgs]
    have hSame : ∀ refs, refs <:+ s.queues →
        refs.flatMap (queueDump b s.base) = refs.flatMap dump := by
      intro refs hSub
      refine flatMap_congr fun ref hRef => hDump ref (hSub.subset hRef)
    have hAll : s.remaining dump = s.queues.flatMap dump := if_pos hMsgs
    rcases snapLoad_cases b s.base s.queues with ⟨hLoad, hNone⟩ | ⟨ref, rest, hLoad, hSome, hSub, hCut⟩
    · rw [hSame _ (suffix_refl _)] at hNone
      rw [hLoad, hAll, hNone]
      exact ⟨rfl, fun _ => rfl, nil_suffix⟩
    have hRest : rest <:+ s.queues := (suffix_cons ref rest).trans hSub
    rw [hSame _ (suffix_refl _), hSame rest hRest] at hCut
    rw [hLoad, hAll, hCut]
    exact ⟨if_neg hSome, fun hNil => absurd hNil hSome, hSub⟩
  · rw [if_neg hMsgs]
    exact ⟨rfl, fun hNil => absurd hNil hMsgs, suffix_refl _⟩

def SnapCursor.advanced (s : SnapCursor) : SnapCursor :=
  let left := s.msgs.drop (takeChunk s.msgs 0 4).length
  { s with queues := if left = [] then s.queues.tail else s.queues
           msgs := left, unackedChunks := s.unackedChunks + 1 }

theorem remaining_advanced (hMsgs : s.msgs ≠ []) :
    s.remaining dump = takeChunk s.msgs 0 4 ++ s.advanced.remaining dump := by
  have hCut := prefix_iff_eq_append.mp (takeChunk_isPrefix s.msgs 0 4)
  have hNow : s.remaining dump = s.msgs ++ s.queues.tail.flatMap dump := if_neg hMsgs
  unfold SnapCursor.advanced SnapCursor.remaining
  dsimp only
  rw [if_neg hMsgs]
  split
  · rename_i hLeft
    rw [hLeft, append_nil] at hCut
    rw [hCut]
  · rw [← append_assoc, hCut]

theorem chunkRecords_concat (fs : List Frame) (f : Frame) :
    chunkRecords (fs ++ [f]) = chunkRecords fs ++ chunkRecords [f] := flatMap_append

/-- A chunk moves the front of the dump onto the wire. -/
theorem Streaming.chunk (h : Streaming dump total s fs acks) (hMsgs : s.msgs ≠ [])
    (hOpen : s.endSent = false) (hRoom : s.unackedChunks < clSnapWindow) (t : Nat) :
    Streaming dump total s.advanced (fs ++ [Frame.snapChunk t (takeChunk s.msgs 0 4)]) acks := by
  have hCount : (fs ++ [Frame.snapChunk t (takeChunk s.msgs 0 4)]).countP isChunk =
      fs.countP isChunk + 1 := by
    rw [countP_append]
    rfl
  have hRecords : chunkRecords (fs ++ [Frame.snapChunk t (takeChunk s.msgs 0 4)]) =
      chunkRecords fs ++ takeChunk s.msgs 0 4 := by
    rw [chunkRecords_concat]
    simp [chunkRecords]
  -- no chunk is empty, so that chunks are fewer than records
  have hSome : 0 < (takeChunk s.msgs 0 4).length :=
    length_pos_iff.mpr (takeChunk_ne_nil hMsgs 4)
  obtain ⟨hExact, hNone⟩ := h.opened hOpen
  refine ⟨?_, hRoom, ?_, ?_, fun _ => ⟨?_, ?_⟩, fun hClosed => ?_⟩
  · rw [hRecords, append_assoc, ← remaining_advanced hMsgs]
    exact h.records
  · rw [hCount]
    exact Nat.succ_le_succ h.acked
  · have := h.filled
    rw [hCount, hRecords, length_append]
    omega
  · rw [hCount, hExact]
    rfl
  · rw [countP_append, hNone]
    rfl
  · rw [show s.endSent = true from hClosed] at hOpen
    cases hOpen

theorem Streaming.close (h : Streaming dump total s fs acks) (hDone : s.remaining dump = [])
    (hOpen : s.endSent = false) (t : Nat) :
    Streaming dump total { s with endSent := true } (fs ++ [Frame.snapEnd t]) acks := by
  have hCount : (fs ++ [Frame.snapEnd t]).countP isChunk = fs.countP isChunk := by
    rw [countP_append]
    rfl
  have hRecords : chunkRecords (fs ++ [Frame.snapEnd t]) = chunkRecords fs := by
    rw [chunkRecords_concat]
    exact append_nil _
  obtain ⟨-, hNone⟩ := h.opened hOpen
  refine ⟨?_, h.window, ?_, ?_, nofun, fun _ => ⟨hDone, ?_, t, ?_⟩⟩
  · rw [hRecords]
    exact h.records
  · rw [hCount]
    exact h.acked
  · rw [hCount, hRecords]
    exact h.filled
  · rw [countP_append, hNone]
    rfl
  · exact getLast?_concat

theorem Streaming.load (h : Streaming dump total s fs acks)
    (hDump : ∀ ref ∈ s.queues, queueDump b s.base ref = dump ref) :
    Streaming dump total (s.loaded b) fs acks := by
  have hSame := (remaining_loaded hDump).1
  have hFields : (s.loaded b).unackedChunks = s.unackedChunks ∧
      (s.loaded b).endSent = s.endSent := by
    unfold SnapCursor.loaded
    split <;> exact ⟨rfl, rfl⟩
  refine ⟨?_, ?_, ?_, h.filled, ?_, ?_⟩
  · rw [hSame]
    exact h.records
  · rw [hFields.1]
    exact h.window
  · rw [hFields.1]
    exact h.acked
  · rw [hFields.1, hFields.2]
    exact h.opened
  · rw [hFields.2, hSame]
    exact h.closed

def Paused (s : SnapCursor) : Prop := s.endSent = true ∨ s.unackedChunks = clSnapWindow

theorem updPeer_congr {n : Node} {p : Nat} {f g : Peer → Peer} (hEq : f (n.peer p) = g (n.peer p)) :
    n.updPeer p f = n.updPeer p g := by
  unfold Node.updPeer
  congr 1
  funext q
  by_cases hq : q = p
  · rw [if_pos hq, if_pos hq, hq, hEq]
  · rw [if_neg hq, if_neg hq]

theorem snapPumpLoop_succ (p k : Nat) (n : Node) :
    snapPumpLoop p (k + 1) n =
      let s := (n.peer p).snap.loaded n.applied.broker
      if s.msgs = [] then
        if s.endSent then n.updPeer p fun q => { q with snap := s }
        else clSend (n.updPeer p fun q => { q with snap := { s with endSent := true } }) p
          (.snapEnd n.wireTerm)
      else
        snapPumpLoop p k ((clSend n p (.snapChunk n.wireTerm (takeChunk s.msgs 0 4))).updPeer p
          fun q => { q with snap := s.advanced }) := by
  obtain ⟨queues, msgs, hPair, hLoaded⟩ : ∃ queues msgs,
      (if (n.peer p).snap.msgs = [] then
        snapLoad n.applied.broker (n.peer p).snap.base (n.peer p).snap.queues
        else ((n.peer p).snap.queues, (n.peer p).snap.msgs)) = (queues, msgs) ∧
      (n.peer p).snap.loaded n.applied.broker = { (n.peer p).snap with queues, msgs } := by
    unfold SnapCursor.loaded
    split
    · exact ⟨_, _, rfl, rfl⟩
    · exact ⟨_, _, rfl, rfl⟩
  conv_lhs => unfold snapPumpLoop
  dsimp only
  rw [hPair, hLoaded]
  dsimp only
  split
  · split
    · exact updPeer_congr rfl
    · rw [updPeer_updPeer]
      exact congrArg (clSend · p _) (updPeer_congr rfl)
  · exact congrArg (snapPumpLoop p k) (updPeer_congr rfl)

theorem peer_updPeer (n : Node) (p : Nat) (f : Peer → Peer) :
    (n.updPeer p f).peer p = f (n.peer p) := if_pos rfl

theorem peer_clSend (n : Node) (p : Nat) (f : Frame) : (clSend n p f).peer = n.peer := rfl

/-! ## The pump -/

def Node.queueRefs (n : Node) : List (Bytes × Nat) :=
  n.applied.broker.queues.entries.map fun e => (e.1, e.2.gen)

/-- The records `snap_start` finds for a queue it references. -/
def Node.dumpOf (n : Node) : Bytes × Nat → List SnapRec :=
  queueDump n.applied.broker n.log.compactedTo

/-- Node `n` streams to `p` what `n₀` had: the queues that were referenced are as they were. -/
structure Feeding (n₀ : Node) (p : Nat) (n : Node) (fs : List Frame) (acks : Nat) : Prop where
  active : (n.peer p).snap.active = true
  boundary : (n.peer p).snap.base = n₀.log.compactedTo
  queues : (n.peer p).snap.queues <:+ n₀.queueRefs
  dumps : ∀ ref ∈ n₀.queueRefs,
    queueDump n.applied.broker n₀.log.compactedTo ref = n₀.dumpOf ref
  stream : Streaming n₀.dumpOf (n₀.queueRefs.flatMap n₀.dumpOf) (n.peer p).snap fs acks

variable {n₀ n n' : Node} {p : Nat}

theorem loaded_fields (b : Broker) (s : SnapCursor) :
    (s.loaded b).active = s.active ∧ (s.loaded b).base = s.base ∧
      (s.loaded b).unackedChunks = s.unackedChunks ∧ (s.loaded b).endSent = s.endSent := by
  unfold SnapCursor.loaded
  split
  · exact ⟨rfl, rfl, rfl, rfl⟩
  · exact ⟨rfl, rfl, rfl, rfl⟩

theorem queues_advanced (s : SnapCursor) : s.advanced.queues <:+ s.queues := by
  unfold SnapCursor.advanced
  dsimp only
  split
  · exact tail_suffix _
  · exact suffix_refl _

theorem Feeding.put (h : Feeding n₀ p n fs acks) {gs : List Frame} {acks' : Nat}
    (hBroker : n'.applied = n.applied) (hSnap : (n'.peer p).snap = s)
    (hActive : s.active = (n.peer p).snap.active) (hBase : s.base = (n.peer p).snap.base)
    (hQueues : s.queues <:+ (n.peer p).snap.queues)
    (hStream : Streaming n₀.dumpOf (n₀.queueRefs.flatMap n₀.dumpOf) s gs acks') :
    Feeding n₀ p n' gs acks' := by
  refine ⟨?_, ?_, ?_, ?_, ?_⟩
  · rw [hSnap, hActive, h.active]
  · rw [hSnap, hBase, h.boundary]
  · rw [hSnap]
    exact hQueues.trans h.queues
  · rw [hBroker]
    exact h.dumps
  · rw [hSnap]
    exact hStream

/-- **The turns of `snap_pump` carry the stream on until the window is full or the stream is
closed.** -/
theorem feeding_pumpLoop {k : Nat} (h : Feeding n₀ p n fs acks)
    (hRoom : (n.peer p).snap.unackedChunks + k = clSnapWindow) :
    ∃ gs, (snapPumpLoop p k n).out = n.out ++ gs.map (Effect.send p) ∧
      Feeding n₀ p (snapPumpLoop p k n) (fs ++ gs) acks ∧
      Paused ((snapPumpLoop p k n).peer p).snap := by
  -- a turn that sends a chunk leaves one place less in the window
  induction k generalizing n fs with
  | zero => exact ⟨[], (append_nil _).symm, by rwa [append_nil], .inr hRoom⟩
  | succ k ih =>
    obtain ⟨hActive, hBase, hUnacked, hEnd⟩ := loaded_fields n.applied.broker (n.peer p).snap
    have hDump : ∀ ref ∈ (n.peer p).snap.queues,
        queueDump n.applied.broker (n.peer p).snap.base ref = n₀.dumpOf ref := by
      intro ref hRef
      rw [h.boundary]
      exact h.dumps ref (h.queues.subset hRef)
    obtain ⟨hSame, hDone, hQueues⟩ := remaining_loaded hDump
    have hStream := h.stream.load hDump
    rw [snapPumpLoop_succ]
    dsimp only
    generalize (n.peer p).snap.loaded n.applied.broker = s at *
    split
    · rename_i hMsgs
      split
      · rename_i hSent
        have hSnap : ((n.updPeer p fun q => { q with snap := s }).peer p).snap = s := by
          rw [peer_updPeer]
        refine ⟨[], (append_nil _).symm, ?_, .inl (by rw [hSnap, hSent])⟩
        rw [append_nil]
        exact h.put rfl hSnap hActive hBase hQueues hStream
      rename_i hSent
      have hSnap : ((clSend (n.updPeer p fun q => { q with snap := { s with endSent := true } }) p
          (.snapEnd n.wireTerm)).peer p).snap = { s with endSent := true } := by
        rw [peer_clSend, peer_updPeer]
      refine ⟨[.snapEnd n.wireTerm], rfl, ?_, .inl (by rw [hSnap])⟩
      refine h.put rfl hSnap hActive hBase hQueues (hStream.close ?_ (by simpa using hSent) _)
      rw [hSame]
      exact hDone hMsgs
    · rename_i hMsgs
      -- a closed stream has nothing left, so this one is open
      have hOpen : s.endSent = false := by
        cases hSent : s.endSent with
        | false => rfl
        | true =>
          have hNone := (hStream.closed hSent).1
          rw [remaining_advanced hMsgs] at hNone
          exact absurd (append_eq_nil_iff.mp hNone).1 (takeChunk_ne_nil hMsgs 4)
      set n' := (clSend n p (.snapChunk n.wireTerm (takeChunk s.msgs 0 4))).updPeer p
        fun q => { q with snap := s.advanced } with hNext
      have hSnap : (n'.peer p).snap = s.advanced := congrArg Peer.snap (peer_updPeer _ p _)
      have hFed : Feeding n₀ p n'
          (fs ++ [.snapChunk n.wireTerm (takeChunk s.msgs 0 4)]) acks :=
        h.put rfl hSnap hActive hBase ((queues_advanced s).trans hQueues)
          (hStream.chunk hMsgs hOpen (by omega) _)
      have hLess : (n'.peer p).snap.unackedChunks + k = clSnapWindow := by
        rw [hSnap, show s.advanced.unackedChunks = s.unackedChunks + 1 from rfl]
        omega
      obtain ⟨gs, hOut, hThen, hPaused⟩ := ih hFed hLess
      refine ⟨.snapChunk n.wireTerm (takeChunk s.msgs 0 4) :: gs, ?_, ?_, hPaused⟩
      · rw [hOut]
        exact append_assoc _ _ _
      · rw [append_assoc] at hThen
        exact hThen

theorem sentTo_map (p : Nat) (fs : List Frame) : sentTo p (fs.map (Effect.send p)) = fs := by
  induction fs with
  | nil => rfl
  | cons f fs ih => simp [sentTo] at ih ⊢

theorem feeding_pump (h : Feeding n₀ p n fs acks) :
    Feeding n₀ p (snapPump n p)
        (fs ++ sentTo p ((snapPump n p).out.drop n.out.length)) acks ∧
      Paused ((snapPump n p).peer p).snap := by
  have hRoom := h.stream.window
  have hPump : snapPump n p = snapPumpLoop p (clSnapWindow - (n.peer p).snap.unackedChunks) n :=
    if_pos h.active
  obtain ⟨gs, hOut, hFed, hPaused⟩ :=
    feeding_pumpLoop (k := clSnapWindow - (n.peer p).snap.unackedChunks) h (by omega)
  rw [hPump, hOut, drop_left, sentTo_map]
  exact ⟨hFed, hPaused⟩

/-! ## A transfer -/

/-- **One uninterrupted transfer to `p`**, from `snap_start` at `n₀`: the node, the frames the
transfer sent, and how many chunk acknowledgements came in. `snap_pump` may be entered at any
time, and anything else may happen that leaves the cursor and the dumped queues alone. -/
inductive Transfer (p : Nat) (n₀ : Node) : Node → List Frame → Nat → Prop
  | start : Transfer p n₀ (snapPump (snapStart n₀ p) p)
      (sentTo p ((snapPump (snapStart n₀ p) p).out.drop (snapStart n₀ p).out.length)) 0
  | pump {n : Node} {fs : List Frame} {acks : Nat} (h : Transfer p n₀ n fs acks) :
      Transfer p n₀ (snapPump n p) (fs ++ sentTo p ((snapPump n p).out.drop n.out.length)) acks
  | ack {n : Node} {fs : List Frame} {acks t base : Nat} (h : Transfer p n₀ n fs acks)
      (hRole : n.role = .leader) (hTerm : t ≤ n.term) :
      Transfer p n₀ (onSnapAck n p t false base)
        (fs ++ sentTo p ((onSnapAck n p t false base).out.drop n.out.length)) (acks + 1)
  | other {n n' : Node} {fs : List Frame} {acks : Nat} (h : Transfer p n₀ n fs acks)
      (hSnap : (n'.peer p).snap = (n.peer p).snap)
      (hQueues : ∀ ref ∈ n₀.queueRefs, queueDump n'.applied.broker n₀.log.compactedTo ref =
        n₀.dumpOf ref) :
      Transfer p n₀ n' fs acks

theorem queueDump_refs (b : Broker) (base : Nat) :
    (b.queues.entries.map fun e => (e.1, e.2.gen)).flatMap (queueDump b base) =
      b.queues.values.flatMap fun q => (queueSnapshotRefs q base).map (snapRecord q) := by
  unfold Table.values
  rw [flatMap_map, flatMap_map]
  refine flatMap_congr fun e hMem => ?_
  have hGet : b.queues.get e.1 = some e.2 := AList.mem_lookup_iff.mpr hMem
  unfold queueDump queueObject
  rw [hGet]
  dsimp only
  rw [if_pos rfl]

theorem feeding_start (n₀ : Node) (p : Nat) : Feeding n₀ p (snapStart n₀ p) [] 0 := by
  have hSnap : ((snapStart n₀ p).peer p).snap =
      { active := true, base := n₀.log.compactedTo
        baseTerm := logTermAt n₀.log n₀.log.compactedTo, queues := n₀.queueRefs } := by
    unfold snapStart
    dsimp only
    rw [peer_clSend, peer_updPeer]
    rfl
  refine ⟨by rw [hSnap], by rw [hSnap], by rw [hSnap], fun _ _ => rfl, ?_⟩
  rw [hSnap]
  exact ⟨rfl, Nat.zero_le _, le_rfl, le_rfl, fun _ => ⟨rfl, rfl⟩, nofun⟩

theorem Streaming.ack (h : Streaming dump total s fs acks) (hPaused : Paused s) :
    Streaming dump total { s with unackedChunks := s.unackedChunks - 1 } fs (acks + 1) := by
  have hWindow := h.window
  have hAcked := h.acked
  refine ⟨h.records, ?_, ?_, h.filled, fun hOpen => ⟨?_, (h.opened hOpen).2⟩, h.closed⟩
  · exact (Nat.sub_le _ _).trans hWindow
  · show fs.countP isChunk ≤ acks + 1 + (s.unackedChunks - 1)
    omega
  · -- an open stream waits with a full window, so the acknowledgement is for one of its chunks
    have hFull : s.unackedChunks = clSnapWindow :=
      hPaused.resolve_left (by rw [show s.endSent = false from hOpen]; exact Bool.false_ne_true)
    have hExact := (h.opened hOpen).1
    show fs.countP isChunk = acks + 1 + (s.unackedChunks - 1)
    rw [hExact, hFull, show clSnapWindow = 4 from rfl]

theorem feeding_ack {t ackBase : Nat} (h : Feeding n₀ p n fs acks) (hPaused : Paused (n.peer p).snap)
    (hRole : n.role = .leader) (hTerm : t ≤ n.term) :
    Feeding n₀ p (onSnapAck n p t false ackBase)
        (fs ++ sentTo p ((onSnapAck n p t false ackBase).out.drop n.out.length)) (acks + 1) ∧
      Paused ((onSnapAck n p t false ackBase).peer p).snap := by
  set n' := n.updPeer p fun q =>
    { q with snap := { q.snap with unackedChunks := q.snap.unackedChunks - 1 } } with hNext
  have hAck : onSnapAck n p t false ackBase = snapPump n' p := by
    unfold onSnapAck observeTerm
    rw [if_pos hTerm]
    simp [hRole, h.active, hNext]
  have hSnap : (n'.peer p).snap =
      { (n.peer p).snap with unackedChunks := (n.peer p).snap.unackedChunks - 1 } := by
    rw [hNext, peer_updPeer]
  have hFed : Feeding n₀ p n' fs (acks + 1) :=
    h.put rfl hSnap rfl rfl (suffix_refl _) (h.stream.ack hPaused)
  rw [hAck]
  exact feeding_pump hFed

/-- **A transfer at rest** waits for an acknowledgement or is closed. -/
theorem feeding_transfer (h : Transfer p n₀ n fs acks) :
    Feeding n₀ p n fs acks ∧ Paused (n.peer p).snap := by
  induction h with
  | start => exact feeding_pump (feeding_start n₀ p)
  | pump _ ih => exact feeding_pump ih.1
  | ack _ hRole hTerm ih => exact feeding_ack ih.1 ih.2 hRole hTerm
  | other _ hSnap hQueues ih =>
    obtain ⟨hFed, hPaused⟩ := ih
    refine ⟨⟨?_, ?_, ?_, hQueues, ?_⟩, ?_⟩
    all_goals rw [hSnap]
    exacts [hFed.active, hFed.boundary, hFed.queues, hFed.stream, hPaused]

/-- **A transfer sends exactly the dump.** The records of its chunks are the beginning of what
`queue_snapshot_refs` yields for one queue after the other, no more than the window's chunks are
unacknowledged, and there is one SNAP_END, behind the whole dump. It is sent as soon as the
acknowledgements leave room in the window, so at the latest after as many of them as there are
records. -/
theorem snapshot_stream (h : Transfer p n₀ n fs acks) :
    let total := n₀.applied.broker.queues.values.flatMap fun q =>
      (queueSnapshotRefs q n₀.log.compactedTo).map (snapRecord q)
    chunkRecords fs <+: total ∧
      (n.peer p).snap.unackedChunks ≤ clSnapWindow ∧
      fs.countP isChunk ≤ acks + clSnapWindow ∧
      fs.countP isEnd ≤ 1 ∧
      (fs.countP isEnd = 1 → chunkRecords fs = total ∧ ∃ t, fs.getLast? = some (.snapEnd t)) ∧
      (fs.countP isChunk < acks + clSnapWindow → fs.countP isEnd = 1) ∧
      (total.length < acks + clSnapWindow → fs.countP isEnd = 1) := by
  intro total
  obtain ⟨hFed, hPaused⟩ := feeding_transfer h
  have hStream := hFed.stream
  have hTotal : n₀.queueRefs.flatMap n₀.dumpOf = total := queueDump_refs _ _
  rw [hTotal] at hStream
  have hWindow := hStream.window
  have hAcked := hStream.acked
  have hPart : chunkRecords fs <+: total := ⟨_, hStream.records⟩
  -- while the stream is open the window is full, and every chunk carries a record
  have hOpen : (n.peer p).snap.endSent = false →
      fs.countP isChunk = acks + clSnapWindow ∧ fs.countP isEnd = 0 := by
    intro hOpen
    have hFull : (n.peer p).snap.unackedChunks = clSnapWindow :=
      hPaused.resolve_left (by rw [hOpen]; exact Bool.false_ne_true)
    have hExact := hStream.opened hOpen
    rw [hFull] at hExact
    exact hExact
  have hLength := hPart.length_le
  have hFilled := hStream.filled
  cases hSent : (n.peer p).snap.endSent with
  | false =>
    obtain ⟨hExact, hNone⟩ := hOpen hSent
    exact ⟨hPart, hWindow, hExact.le, by omega, fun hOne => by omega, fun hLt => by omega,
      fun hLt => by omega⟩
  | true =>
    obtain ⟨hDone, hOne, hLast⟩ := hStream.closed hSent
    have hAll := hStream.records
    rw [hDone, append_nil] at hAll
    exact ⟨hPart, hWindow, by omega, hOne.le, fun _ => ⟨hAll, hLast⟩, fun _ => hOne,
      fun _ => hOne⟩

def oneMessage (k : UInt8) : Queue where
  vhost := []
  name := [k]
  flags := 0
  gen := k.toNat
  ready := [{ exchange := [], routingKey := [k], props := [], body := [], clusterId := k.toNat }]

/-- A leader with five queues, compacted behind all of their messages. -/
def fiveQueues : Node where
  cfg := { selfId := 0, nnodes := 2 }
  term := 1
  role := .leader
  log := { compactedTo := 9, baseIndex := 9, commitIndex := 9 }
  applied :=
    { broker := { queues := [1, 2, 3, 4, 5].foldl (fun t k => t.insert [k] (oneMessage k)) ∅ } }

/-- The fifth chunk waits for the first acknowledgement, SNAP_END for the second. -/
theorem snapshot_stream_five : ∃ n fs, Transfer 1 fiveQueues n fs 2 ∧
    (chunkRecords fs).map (·.clusterId) = [5, 4, 3, 2, 1] ∧ fs.countP isEnd = 1 := by
  have hStart : Transfer 1 fiveQueues _ _ 0 := .start
  have hFirst : Transfer 1 fiveQueues (onSnapAck _ 1 1 false 9) _ 1 :=
    .ack hStart (by decide +kernel) (by decide +kernel)
  have hTransfer : Transfer 1 fiveQueues (onSnapAck _ 1 1 false 9) _ 2 :=
    .ack hFirst (by decide +kernel) (by decide +kernel)
  obtain ⟨-, -, -, -, hWhole, -, hClosed⟩ := snapshot_stream hTransfer
  have hEnd := hClosed (by decide +kernel)
  refine ⟨_, _, hTransfer, ?_, hEnd⟩
  rw [(hWhole hEnd).1]
  decide +kernel

end BeaverMQ
