import BeaverMQ.Model.Protocol

/-!
# BeaverMQ — how the input is cut into reads does not matter

TCP hands the bytes of a client over in reads of any size. `protocol_on_data` buffers what it
cannot use yet, so reading `a` and then `b` has to be the same as reading `a ++ b`. The
comparison is one of programs: the same actions in the same order, whatever they return, and the
same protocol state at the end.

It is made for the bytes that are left to read first. The buffer of the code, with its cursor and
its deferred shift, always has exactly those bytes, so the comparison carries over.
-/

namespace BeaverMQ.Amqp

open List Prog

/-! ## The parser -/

theorem frameParse_total {buf : Bytes} {f : Frame} {total : Nat}
    (hParse : frameParse buf = .frame f total) : 8 ≤ total ∧ total ≤ buf.length := by
  unfold frameParse at hParse
  split at hParse
  · cases hParse
  dsimp only at hParse
  split at hParse
  · cases hParse
  split at hParse
  · cases hParse
  rename_i hLen
  split at hParse
  · cases hParse
  cases hParse
  simp only [frameHeaderSize] at hLen ⊢
  omega

/-- **More input does not change what the front of it parses to.** -/
theorem frameParse_append (buf more : Bytes) (hFull : frameParse buf ≠ .incomplete) :
    frameParse (buf ++ more) = frameParse buf := by
  have hSize : frameHeaderSize = 7 := rfl
  have hLonger : buf.length ≤ (buf ++ more).length := by simp
  have hTake : ∀ k n, k + n ≤ buf.length →
      ((buf ++ more).drop k).take n = (buf.drop k).take n := by
    intro k n hkn
    rw [drop_append_of_le_length (by omega), take_append_of_le_length]
    rw [length_drop]
    omega
  unfold frameParse at hFull ⊢
  by_cases hHead : buf.length < frameHeaderSize
  · rw [if_pos hHead] at hFull
    exact absurd rfl hFull
  rw [if_neg hHead] at hFull ⊢
  rw [if_neg (by omega : ¬ (buf ++ more).length < frameHeaderSize)]
  -- the length field lies within the seven bytes of the head
  rw [hTake 3 4 (by omega)]
  dsimp only at hFull ⊢
  generalize Bytes.beVal ((buf.drop 3).take 4) = len at hFull ⊢
  by_cases hBig : maxFramePayload < len
  · rw [if_pos hBig, if_pos hBig]
  rw [if_neg hBig] at hFull ⊢
  rw [if_neg hBig]
  by_cases hShort : buf.length < frameHeaderSize + len + 1
  · rw [if_pos hShort] at hFull
    exact absurd rfl hFull
  have hFirst : (buf ++ more).take 1 = buf.take 1 := hTake 0 1 (by omega)
  rw [if_neg hShort, if_neg (by omega : ¬ (buf ++ more).length < frameHeaderSize + len + 1),
    getElem?_append_left (by omega), hFirst, hTake 1 2 (by omega),
    hTake frameHeaderSize len (by omega)]

/-! ## The frame loop -/

variable (cfg : Cfg) (fuel : Nat)

/-- The stream up to the residue of a connection that is closing, which nobody reads again. -/
def Stream.settled (st : Stream) : Stream :=
  if st.proto.state = .closing then { st with inbuf := [] } else st

theorem settled_closing {p : Proto} (hClosing : p.state = .closing) (h : Bool) (x y : Bytes) :
    (⟨p, h, x⟩ : Stream).settled = (⟨p, h, y⟩ : Stream).settled := by
  simp only [Stream.settled, hClosing, if_true]

theorem ends_protoClose (p : Proto) : (protoClose cfg p).Ends (·.state = .closing) := by
  unfold protoClose
  split
  · exact ends_pure ‹_›
  · exact ends_bind fun _ => ends_pure rfl

theorem protoClose_bind {α : Type} (p : Proto) {f g : Proto → Proc α}
    (hEq : ∀ q : Proto, q.state = .closing → f q = g q) :
    (protoClose cfg p >>= f) = (protoClose cfg p >>= g) :=
  (ends_protoClose cfg p).bind_congr hEq

theorem frameLoop_enough {n m : Nat} {st : Stream} (hn : st.inbuf.length < n)
    (hm : st.inbuf.length < m) : frameLoop cfg fuel n st = frameLoop cfg fuel m st := by
  induction n generalizing m st with
  | zero => omega
  | succ n ih =>
    obtain ⟨m, rfl⟩ : ∃ k, m = k + 1 := ⟨m - 1, by omega⟩
    unfold frameLoop
    split
    · rfl
    split
    · rfl
    · rfl
    · rename_i f total hParse
      obtain ⟨hMin, hMax⟩ := frameParse_total hParse
      split
      · rfl
      refine congrArg _ (funext fun p => ih ?_ ?_)
      all_goals
        simp only [length_drop]
        omega

theorem ends_frameLoop (n : Nat) (p : Proto) (h : Bool) (buf : Bytes) :
    (frameLoop cfg fuel n ⟨p, h, buf⟩).Ends (·.headerReceived = h) := by
  induction n generalizing p buf with
  | zero => exact ends_pure rfl
  | succ n ih =>
    unfold frameLoop
    split
    · exact ends_pure rfl
    split
    · exact ends_pure rfl
    · exact ends_bind fun _ => ends_pure rfl
    · split
      · exact ends_bind fun _ => ends_pure rfl
      · exact ends_bind fun q => ih q _

/-- What is done with the next read once the greeting has been consumed. -/
def resume (more : Bytes) (st : Stream) : Proc Stream :=
  if st.proto.state = .closing then return st
  else frameLoop cfg fuel ((st.inbuf ++ more).length + 1) { st with inbuf := st.inbuf ++ more }

/-- **The frame loop can be stopped and taken up again.** -/
theorem frameLoop_append (more : Bytes) {n m : Nat} {p : Proto} {h : Bool} {buf : Bytes}
    (hn : buf.length < n) (hm : (buf ++ more).length < m) :
    Stream.settled <$> (frameLoop cfg fuel n ⟨p, h, buf⟩ >>= resume cfg fuel more) =
      Stream.settled <$> frameLoop cfg fuel m ⟨p, h, buf ++ more⟩ := by
  induction n generalizing m p buf with
  | zero => omega
  | succ n ih =>
    obtain ⟨m, rfl⟩ : ∃ k, m = k + 1 := ⟨m - 1, by omega⟩
    by_cases hClosing : p.state = .closing
    · -- a closing connection looks at nothing any more
      unfold frameLoop resume
      simp only [hClosing, if_true, pure_bind, map_pure]
      exact congrArg pure (settled_closing hClosing h _ _)
    rcases hParse : frameParse buf with _ | _ | ⟨f, total⟩
    · -- nothing complete: the second read finds what the single one finds
      have hStop : frameLoop cfg fuel (n + 1) ⟨p, h, buf⟩ = pure ⟨p, h, buf⟩ := by
        unfold frameLoop
        simp only [hClosing, if_false, hParse]
      rw [hStop, pure_bind]
      unfold resume
      rw [if_neg hClosing]
      exact congrArg _ (frameLoop_enough cfg fuel (Nat.lt_succ_self _) hm)
    all_goals
      have hFull := frameParse_append buf more (by rw [hParse]; nofun)
      rw [hParse] at hFull
      unfold frameLoop
      simp only [hClosing, if_false, hParse, hFull]
    · -- bad framing: both close, and the residue is nobody's
      rw [bind_assoc, map_eq_pure_bind, map_eq_pure_bind, bind_assoc, bind_assoc]
      refine protoClose_bind cfg p fun q hq => ?_
      simp only [pure_bind, resume, hq, if_true]
      exact congrArg pure (settled_closing hq h _ _)
    · obtain ⟨hMin, hMax⟩ := frameParse_total hParse
      split
      · rw [bind_assoc, map_eq_pure_bind, map_eq_pure_bind, bind_assoc, bind_assoc]
        refine protoClose_bind cfg p fun q hq => ?_
        simp only [pure_bind, resume, hq, if_true]
        exact congrArg pure (settled_closing hq h _ _)
      rw [bind_assoc, map_bind, map_bind, drop_append_of_le_length hMax]
      refine congrArg _ (funext fun q => ih ?_ ?_)
      · simp only [length_drop]
        omega
      · simp only [length_append, length_drop] at hm ⊢
        omega

theorem onData_resume (more : Bytes) {st : Stream} (hHeader : st.headerReceived = true) :
    onData cfg fuel st more = resume cfg fuel more st := by
  unfold onData resume greeting
  split
  · rfl
  · simp only [hHeader, if_true, pure_bind]

theorem frameLoop_onData {p : Proto} {buf : Bytes} (more : Bytes) :
    Stream.settled <$> (frameLoop cfg fuel (buf.length + 1) ⟨p, true, buf⟩ >>= fun st' =>
        onData cfg fuel st' more) =
      Stream.settled <$>
        frameLoop cfg fuel ((buf ++ more).length + 1) ⟨p, true, buf ++ more⟩ := by
  rw [(ends_frameLoop cfg fuel (buf.length + 1) p true buf).bind_congr fun st' hst' =>
    onData_resume cfg fuel more hst']
  exact frameLoop_append cfg fuel more (Nat.lt_succ_self _) (Nat.lt_succ_self _)

section Greeting

variable {p : Proto} {buf : Bytes} (hOpen : ¬ p.state = .closing) {data : Bytes}

include hOpen

theorem onData_short (hShort : (buf ++ data).length < 8) :
    onData cfg fuel ⟨p, false, buf⟩ data = pure ⟨p, false, buf ++ data⟩ := by
  simp only [onData, greeting, hOpen, hShort, if_false, if_true, Bool.false_eq_true, pure_bind]

theorem onData_greeted (hLong : ¬ (buf ++ data).length < 8)
    (hGreet : (buf ++ data).take 8 = protocolHeader) :
    onData cfg fuel ⟨p, false, buf⟩ data =
      (sendConnectionStart cfg (p.advance .handshake) >>= fun q =>
        frameLoop cfg fuel (((buf ++ data).drop 8).length + 1)
          ⟨q, true, (buf ++ data).drop 8⟩) := by
  simp only [onData, greeting, hOpen, hLong, hGreet, if_false, if_true, Bool.false_eq_true,
    ne_eq, not_true_eq_false, bind_assoc, pure_bind]

theorem onData_refused (hLong : ¬ (buf ++ data).length < 8)
    (hGreet : ¬ (buf ++ data).take 8 = protocolHeader) :
    onData cfg fuel ⟨p, false, buf⟩ data =
      (act (.send p.conn protocolHeader) >>= fun _ => protoFatal cfg p >>= fun q =>
        pure ⟨q, false, buf ++ data⟩) := by
  simp only [onData, greeting, hOpen, hLong, hGreet, if_false, if_true, Bool.false_eq_true,
    ne_eq, not_false_eq_true, bind_assoc, pure_bind]

end Greeting

/-- **Two reads are one read.** From every protocol state, `protocol_on_data` on `a` and then
on `b` is the same program as on `a ++ b`, up to the residue of a connection that is closing. -/
theorem onData_append (st : Stream) (a b : Bytes) :
    Stream.settled <$> (onData cfg fuel st a >>= fun st' => onData cfg fuel st' b) =
      Stream.settled <$> onData cfg fuel st (a ++ b) := by
  obtain ⟨p, h, buf⟩ := st
  by_cases hClosing : p.state = .closing
  · simp only [onData, hClosing, if_true, pure_bind]
  cases h with
  | true =>
    rw [onData_resume cfg fuel a rfl, onData_resume cfg fuel (a ++ b) rfl]
    simp only [resume, hClosing, if_false, ← append_assoc]
    exact frameLoop_onData cfg fuel b
  | false =>
    -- the greeting: not there yet, consumed, or not ours
    by_cases hShort : (buf ++ a).length < 8
    · rw [onData_short cfg fuel hClosing hShort, pure_bind]
      simp only [onData, hClosing, if_false, append_assoc]
    have hLong : ¬ (buf ++ (a ++ b)).length < 8 := by
      simp only [length_append] at hShort ⊢
      omega
    have hTake : (buf ++ (a ++ b)).take 8 = (buf ++ a).take 8 := by
      rw [← append_assoc, take_append_of_le_length (Nat.le_of_not_lt hShort)]
    by_cases hGreet : (buf ++ a).take 8 = protocolHeader
    · rw [onData_greeted cfg fuel hClosing hShort hGreet,
        onData_greeted cfg fuel hClosing hLong (hTake.trans hGreet), bind_assoc, map_bind,
        map_bind, ← append_assoc, drop_append_of_le_length (Nat.le_of_not_lt hShort)]
      exact congrArg _ (funext fun q => frameLoop_onData cfg fuel b)
    rw [onData_refused cfg fuel hClosing hShort hGreet,
      onData_refused cfg fuel hClosing hLong (hTake ▸ hGreet)]
    simp only [bind_assoc, map_bind]
    refine bind_congr fun _ => protoClose_bind cfg p fun q hq => ?_
    simp only [onData, hq, if_true, pure_bind, map_pure]
    exact congrArg pure (settled_closing hq false _ _)

/-! ## The buffer -/

/-- The cursor and the length stay within the memory of the buffer. -/
structure Inbuf.Ok (b : Inbuf) : Prop where
  pos : b.pos ≤ b.len
  len : b.len ≤ b.mem.length

namespace Inbuf

variable {b : Inbuf}

theorem length_unread (h : b.Ok) : b.unread.length = b.len - b.pos := by
  rw [unread, length_drop, length_take_of_le h.len]

theorem unread_skip (h : b.Ok) {n : Nat} (hn : n ≤ b.unread.length) :
    (b.skip n).Ok ∧ (b.skip n).unread = b.unread.drop n := by
  rw [length_unread h] at hn
  have hPos := h.pos
  refine ⟨⟨?_, h.len⟩, ?_⟩
  · show b.pos + n ≤ b.len
    omega
  · rw [unread, unread, drop_drop]
    rfl

/-- The shift changes where the unread bytes are and not what they are. -/
theorem unread_reclaim (h : b.Ok) :
    b.reclaim.Ok ∧ b.reclaim.pos = 0 ∧ b.reclaim.unread = b.unread := by
  have hLen := h.len
  have hPos := h.pos
  unfold reclaim
  split
  · have hKept : ((b.mem.drop b.pos).take (b.len - b.pos)).length = b.len - b.pos := by
      rw [length_take_of_le]
      rw [length_drop]
      omega
    refine ⟨⟨Nat.zero_le _, ?_⟩, rfl, ?_⟩
    · rw [length_append, hKept]
      exact Nat.le_add_right _ _
    · simp only [unread, drop_zero]
      rw [take_append_of_le_length hKept.ge, take_of_length_le hKept.le, drop_take]
  · exact ⟨h, by omega, rfl⟩

theorem le_newCap {need n cap : Nat} (hPos : 0 < cap) (hRounds : need ≤ cap + n) :
    need ≤ newCap need n cap := by
  induction n generalizing cap with
  | zero => exact hRounds
  | succ n ih =>
    unfold newCap
    split
    · split
      · exact le_rfl
      · exact ih (by omega) (by omega)
    · omega

theorem grow_spec (b : Inbuf) (need : Nat) :
    need ≤ (b.grow need).mem.length ∧ (b.grow need).len = b.len ∧ (b.grow need).pos = b.pos ∧
      (b.len ≤ b.mem.length → (b.grow need).mem.take b.len = b.mem.take b.len) := by
  unfold grow
  split
  · have hCap : need ≤ newCap need need (if b.mem.length = 0 then 256 else b.mem.length) := by
      refine le_newCap ?_ (Nat.le_add_left _ _)
      split <;> omega
    refine ⟨?_, rfl, rfl, fun hLen => take_append_of_le_length hLen⟩
    dsimp only
    rw [length_append, length_replicate]
    omega
  · exact ⟨by omega, rfl, rfl, fun _ => rfl⟩

/-- **`inbuf_append` puts the new bytes behind the unread ones.** -/
theorem append_spec (h : b.Ok) {data : Bytes} (hSize : b.unread.length + data.length < 2 ^ 64) :
    ∃ b', b.append data = some b' ∧ b'.Ok ∧ b'.unread = b.unread ++ data := by
  obtain ⟨hOk, hZero, hUnread⟩ := unread_reclaim h
  have hLen : b.reclaim.len = b.unread.length := by
    rw [← hUnread, length_unread hOk, hZero, Nat.sub_zero]
  unfold append
  generalize b.reclaim = r at *
  dsimp only
  rw [Nat.mod_eq_of_lt (by omega), if_neg (by omega)]
  obtain ⟨hRoom, hSame, hCursor, hTake⟩ := grow_spec r (r.len + data.length)
  have hTake := hTake hOk.len
  generalize r.grow (r.len + data.length) = g at *
  have hHead : (g.mem.take g.len).length = r.len := by
    rw [hSame, length_take]
    omega
  refine ⟨_, rfl, ⟨?_, ?_⟩, ?_⟩
  · dsimp only
    rw [hCursor, hZero]
    exact Nat.zero_le _
  · simp only [length_append, length_drop, hHead]
    omega
  · rw [← hUnread, unread, unread]
    dsimp only
    rw [hCursor, hZero, drop_zero, drop_zero,
      take_append_of_le_length (by rw [length_append, hHead]; omega),
      take_of_length_le (by rw [length_append, hHead]; omega), hSame, hTake]

end Inbuf

/-- The connection without the layout of its buffer. -/
def Wired.stream (s : Wired) : Stream := ⟨s.proto, s.headerReceived, s.inbuf.unread⟩

/-- The buffer is in order and has at most `size` unread bytes. -/
def Wired.Within (size : Nat) (s : Wired) : Prop := s.inbuf.Ok ∧ s.inbuf.unread.length ≤ size

/-- A program on the buffer is one on the unread bytes, and leaves the buffer in order. -/
structure Mirrors (size : Nat) (prog : Proc Wired) (prog' : Proc Stream) : Prop where
  same : Wired.stream <$> prog = prog'
  within : prog.Ends (Wired.Within size)

theorem Mirrors.pure {size : Nat} {s : Wired} (h : s.Within size) :
    Mirrors size (pure s) (pure s.stream) :=
  ⟨rfl, ends_pure h⟩

theorem Mirrors.bind {α : Type} {size : Nat} {prog : Proc α} {f : α → Proc Wired}
    {g : α → Proc Stream} (h : ∀ x, Mirrors size (f x) (g x)) :
    Mirrors size (prog >>= f) (prog >>= g) := by
  refine ⟨?_, ends_bind fun x => (h x).within⟩
  rw [map_bind]
  exact bind_congr fun x => (h x).same

theorem mirrors_frameLoop (size n : Nat) {s : Wired} (h : s.Within size) :
    Mirrors size (s.frameLoop cfg fuel n) (frameLoop cfg fuel n s.stream) := by
  induction n generalizing s with
  | zero => exact .pure h
  | succ n ih =>
    unfold Wired.frameLoop frameLoop
    rw [show s.stream.proto = s.proto from rfl, show s.stream.inbuf = s.inbuf.unread from rfl]
    split
    · exact .pure h
    cases hParse : frameParse s.inbuf.unread with
    | incomplete => exact .pure h
    | bad => exact .bind fun p => .pure (s := { s with proto := p }) h
    | frame f total =>
      dsimp only
      split
      · exact .bind fun p => .pure (s := { s with proto := p }) h
      refine .bind fun p => ?_
      -- the parser only takes what is there
      obtain ⟨hOk, hUnread⟩ := Inbuf.unread_skip h.1 (frameParse_total hParse).2
      have hNext := ih (s := { s with proto := p, inbuf := s.inbuf.skip total })
        ⟨hOk, by rw [hUnread, length_drop]; exact (Nat.sub_le _ _).trans h.2⟩
      rw [Wired.stream, hUnread] at hNext
      exact hNext

theorem mirrors_greeting (size : Nat) {s : Wired} (h : s.Within size) :
    Mirrors size (do
        let (go, s) ← s.greeting cfg
        if go then s.frameLoop cfg fuel (s.inbuf.unread.length + 1) else return s)
      (do
        let (go, st) ← greeting cfg s.stream
        if go then frameLoop cfg fuel (st.inbuf.length + 1) st else return st) := by
  unfold Wired.greeting greeting
  rw [show s.stream.proto = s.proto from rfl, show s.stream.inbuf = s.inbuf.unread from rfl,
    show s.stream.headerReceived = s.headerReceived from rfl, ← Inbuf.length_unread h.1]
  split
  · simp only [pure_bind, if_true]
    exact mirrors_frameLoop cfg fuel size _ h
  split
  · simp only [pure_bind, Bool.false_eq_true, if_false]
    exact .pure h
  rename_i hEight
  split
  · simp only [bind_assoc, pure_bind, Bool.false_eq_true, if_false]
    exact .bind fun _ => .bind fun p => .pure (s := { s with proto := p }) h
  · simp only [bind_assoc, pure_bind, if_true]
    refine .bind fun p => ?_
    obtain ⟨hSkip, hRest⟩ := Inbuf.unread_skip h.1 (Nat.le_of_not_lt hEight)
    have hLoop := mirrors_frameLoop cfg fuel size ((s.inbuf.unread.drop 8).length + 1)
      (s := ⟨p, true, s.inbuf.skip 8⟩)
      ⟨hSkip, by rw [hRest, length_drop]; exact (Nat.sub_le _ _).trans h.2⟩
    rw [Wired.stream, hRest] at hLoop
    rw [hRest]
    exact hLoop

theorem mirrors_onData (size : Nat) {s : Wired} (data : Bytes) (hOk : s.inbuf.Ok)
    (hSize : s.inbuf.unread.length + data.length ≤ size) (hLimit : size < 2 ^ 64) :
    Mirrors size (s.onData cfg fuel data) (onData cfg fuel s.stream data) := by
  unfold Wired.onData onData
  rw [show s.stream.proto = s.proto from rfl]
  split
  · exact .pure ⟨hOk, by omega⟩
  obtain ⟨b, hAppend, hOk', hUnread⟩ := Inbuf.append_spec hOk (hSize.trans_lt hLimit)
  rw [hAppend]
  have hStream : (⟨s.proto, s.headerReceived, s.inbuf.unread ++ data⟩ : Stream) =
      Wired.stream { s with inbuf := b } := by rw [Wired.stream, hUnread]
  have hNext := mirrors_greeting cfg fuel size (s := { s with inbuf := b })
    ⟨hOk', by rw [hUnread, length_append]; exact hSize⟩
  rw [← hStream] at hNext
  exact hNext

/-- **Two reads are one read**, on the buffer as the code keeps it. From every state of a connection
`protocol_on_data` on `a` and then on `b` is the same program as on `a ++ b`: the same actions in
the same order, whatever they return, the same protocol state and, unless the connection is
closing, the same unread bytes. The buffer stays in order. -/
theorem protocolOnData_append (s : Wired) (hOk : s.inbuf.Ok) (a b : Bytes)
    (hSize : s.inbuf.unread.length + (a ++ b).length < 2 ^ 64) :
    Stream.settled <$> Wired.stream <$> (s.onData cfg fuel a >>= fun s' => s'.onData cfg fuel b) =
        Stream.settled <$> Wired.stream <$> s.onData cfg fuel (a ++ b) ∧
      (s.onData cfg fuel a).Ends (·.inbuf.Ok) := by
  rw [length_append] at hSize
  have hFirst := mirrors_onData cfg fuel (s.inbuf.unread.length + a.length) a hOk le_rfl
    (by omega)
  have hWhole := mirrors_onData cfg fuel (s.inbuf.unread.length + (a ++ b).length) (a ++ b) hOk le_rfl
    (by rw [length_append]; omega)
  refine ⟨?_, hFirst.within.mono fun _ h => h.1⟩
  -- the second read starts from what the first one left
  have hSecond : Wired.stream <$> (s.onData cfg fuel a >>= fun s' => s'.onData cfg fuel b) =
      (onData cfg fuel s.stream a >>= fun st => onData cfg fuel st b) := by
    rw [map_bind, hFirst.within.bind_congr fun s' hs' =>
      (mirrors_onData cfg fuel _ b hs'.1 le_rfl (by have := hs'.2; omega)).same, ← hFirst.same,
      bind_map_left]
  rw [hSecond, hWhole.same]
  exact onData_append cfg fuel s.stream a b

/-- The greeting in two reads. -/
theorem protocolOnData_append_greeting :
    Stream.settled <$> Wired.stream <$> (Wired.onData {} 9 { proto := { conn := 1 } } [65, 77, 81] >>=
        fun s' => s'.onData {} 9 [80, 0, 0, 9, 1]) =
      Stream.settled <$> Wired.stream <$>
        Wired.onData {} 9 { proto := { conn := 1 } } [65, 77, 81, 80, 0, 0, 9, 1] :=
  (protocolOnData_append {} 9 { proto := { conn := 1 } } ⟨le_rfl, le_rfl⟩ [65, 77, 81]
    [80, 0, 0, 9, 1] (by decide)).1

end BeaverMQ.Amqp
