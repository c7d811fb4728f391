import BeaverMQ.Access.Answers

/-!
# BeaverMQ — what the handler of a management request gets to see

The read callback looks for a complete request each time bytes come in and hands over the whole
buffer. However the request is cut into reads, it is handed over with the read that completes it.
A change takes as its body all that is in the buffer by then, with what the completing read brought
behind the request; and what comes behind a 401 is handed over once more.

A run is compared with the one that gets the whole request, and nothing else, in one read.
-/

namespace BeaverMQ.Http

open Amqp (ascii)
open List

/-! ## The head does not depend on what is behind it -/

theorem headerEnd_split {s : Bytes} {n : Nat} (h : headerEnd s = some n) :
    n + 4 ≤ s.length ∧ ∃ rest, s = s.take n ++ 13 :: rest := by
  induction s generalizing n with
  | nil => cases h
  | cons c s ih =>
    rw [headerEnd] at h
    split at h
    · rename_i hHere
      cases h
      have hLen := congrArg length hHere
      simp only [length_take, length_cons, length_nil] at hLen
      exact ⟨by rw [length_cons]; omega, s, by rw [(cons.inj hHere).1]; rfl⟩
    · obtain ⟨k, hk, rfl⟩ := Option.map_eq_some_iff.mp h
      obtain ⟨hLen, rest, hSplit⟩ := ih hk
      exact ⟨by rw [length_cons]; omega, rest, by rw [take_succ_cons, cons_append, ← hSplit]⟩

theorem headerEnd_append_iff {s t : Bytes} {n : Nat} (hIn : n + 4 ≤ s.length) :
    headerEnd (s ++ t) = some n ↔ headerEnd s = some n := by
  induction s generalizing n with
  | nil => cases hIn
  | cons c s ih =>
    rw [cons_append, headerEnd, headerEnd, ← cons_append, take_append_of_le_length (by omega)]
    split
    · rfl
    · cases n with
      | zero => simp
      | succ n => simpa using ih (by simpa [Nat.add_right_comm] using hIn)

/-- A scan that stops at a carriage return does not see what is behind it. -/
theorem scan_append {p : UInt8 → Bool} (hStop : p 13 = false) (u s : Bytes) :
    (u ++ 13 :: s).takeWhile p = u.takeWhile p ∧
      (u ++ 13 :: s).dropWhile p = u.dropWhile p ++ 13 :: s := by
  induction u with
  | nil => simp [hStop]
  | cons c u ih => by_cases hc : p c = true <;> simp [hc, ih]

theorem readLength_congr (u s t : Bytes) :
    readLength (u ++ 13 :: s) = readLength (u ++ 13 :: t) := by
  unfold readLength
  simp only [fun x => (scan_append (p := isBlank) rfl u x).2]
  generalize u.dropWhile isBlank = u
  simp only [fun x => (scan_append (p := fun c => 48 ≤ c && c ≤ 57) rfl u x).1]
  set ds := u.takeWhile fun c => 48 ≤ c && c ≤ 57
  have hDrop : ∀ x, (u ++ 13 :: x).drop ds.length = u.drop ds.length ++ 13 :: x := fun x =>
    drop_append_of_le_length (List.takeWhile_prefix _).length_le
  simp only [hDrop, fun x => (scan_append (p := isBlank) rfl (u.drop ds.length) x).2]
  cases (u.drop ds.length).dropWhile isBlank <;> rfl

/-- The lengths are read from the head. -/
theorem contentLengthFrom_congr (b : Bool) (u s t : Bytes) (seen : Option Nat) :
    contentLengthFrom b u.length (u ++ 13 :: s) seen =
      contentLengthFrom b u.length (u ++ 13 :: t) seen := by
  induction u generalizing b seen with
  | nil => rfl
  | cons c u ih =>
    rw [cons_append, cons_append, contentLengthFrom, contentLengthFrom]
    split
    · rfl
    have hName : (ascii "Content-Length:").length = 15 := by decide
    have hFits : 15 ≤ (c :: u).length := by omega
    simp only [startsWithCase, hName, ← cons_append, take_append_of_le_length hFits,
      drop_append_of_le_length hFits, readLength_congr _ s t, length_cons, Nat.add_sub_cancel, ih]

/-! ## Reads -/

/-- A head with its empty line and a body of the announced length, within the limits. -/
structure Complete (cfg : Cfg) (req : Bytes) (he clen : Nat) : Prop where
  head : headerEnd req = some he
  length : contentLengthFrom true he req none = some clen
  headFits : he + 4 ≤ httpMaxHeader
  bodyFits : clen ≤ cfg.maxBodyBytes
  size : req.length = he + 4 + clen

section Reads

variable {cfg : Cfg} {o : Oracle} {w w' : World} {req data : Bytes} {he clen : Nat}

/-- **A read waits until the request is complete**, whatever follows the request. -/
theorem Complete.onHttpRead_eq (h : Complete cfg req he clen) (hGrows : o.grows = true)
    {more : Bytes} (hFront : w.inbuf ++ data <+: req ++ more) : onHttpRead cfg o w data =
      if req.length ≤ (w.inbuf ++ data).length then
        handleRequest cfg o { w with inbuf := w.inbuf ++ data }
      else { w with inbuf := w.inbuf ++ data } := by
  obtain ⟨hReq, restReq, hSplitReq⟩ := headerEnd_split h.head
  have hAll := (headerEnd_append_iff (t := more) hReq).mpr h.head
  have hMax := h.headFits
  obtain ⟨rest, hRest⟩ := hFront
  unfold onHttpRead
  generalize w.inbuf ++ data = buf at *
  rw [← hRest] at hAll
  by_cases hIn : he + 4 ≤ buf.length
  · have hHead := (headerEnd_append_iff hIn).mp hAll
    have hLike : buf.take he = req.take he := by
      have hTake := congrArg (List.take he) hRest
      rwa [take_append_of_le_length (by omega), take_append_of_le_length (by omega)] at hTake
    have hTake : (buf.take he).length = he := by
      rw [length_take]
      omega
    obtain ⟨-, tail, hSplit⟩ := headerEnd_split hHead
    have hLength := contentLengthFrom_congr true (buf.take he) tail restReq none
    rw [← hSplit, hTake, hLike, ← hSplitReq, h.length] at hLength
    have hFits : ¬ httpMaxHeader < (requestHead buf).length := by
      rw [requestHead, hHead, Option.elim_some, length_take]
      omega
    simp only [hGrows, Bool.not_true, Bool.false_eq_true, if_false, hFits, hHead, hLength,
      Nat.not_lt.mpr h.bodyFits, h.size]
  -- the empty line is still to come
  have hNone : headerEnd buf = none := by
    by_contra hSome
    obtain ⟨m, hm⟩ := Option.ne_none_iff_exists'.mp hSome
    obtain ⟨hLe, -⟩ := headerEnd_split hm
    obtain rfl := Option.some.inj (((headerEnd_append_iff hLe).mpr hm).symm.trans hAll)
    exact hIn hLe
  have hFits : ¬ httpMaxHeader < (requestHead buf).length := by
    rw [requestHead, hNone, Option.elim_none]
    omega
  have hLess : ¬ req.length ≤ buf.length := by
    rw [h.size]
    omega
  simp only [hGrows, Bool.not_true, Bool.false_eq_true, if_false, hFits, hNone, hLess]

end Reads

/-! ## What is taken from the buffer -/

theorem requestHead_append {req : Bytes} {he : Nat} (hHead : headerEnd req = some he)
    (extra : Bytes) : requestHead (req ++ extra) = requestHead req := by
  obtain ⟨hIn, -⟩ := headerEnd_split hHead
  rw [requestHead, requestHead, hHead, (headerEnd_append_iff hIn).mpr hHead, Option.elim_some,
    Option.elim_some, take_append_of_le_length hIn]

/-- A word that a blank ends is found again. -/
theorem word_append {s : Bytes} (hEnds : (s.takeWhile (· ≠ 32)).length < s.length) (t : Bytes) :
    (s ++ t).takeWhile (· ≠ 32) = s.takeWhile (· ≠ 32) := by
  rw [takeWhile_append, if_neg hEnds.ne]

theorem requestLine_append {req : Bytes} {line : Bytes × Bytes} (h : requestLine req = some line)
    (extra : Bytes) : requestLine (req ++ extra) = some line := by
  unfold requestLine at h ⊢
  dsimp only at h ⊢
  split at h
  · cases h
  rename_i hMethod
  split at h
  · cases h
  rename_i hPath
  rw [not_le] at hMethod hPath
  rw [word_append hMethod extra, drop_append_of_le_length (Nat.succ_le_of_lt hMethod)]
  rw [word_append hPath extra, ← h, if_neg (by rw [length_append]; omega),
    if_neg (not_le.mpr (hPath.trans_le (by rw [length_append]; exact Nat.le_add_right ..)))]

/-- `http_dispatch_level` takes a body out of the buffer: for a change by an administrator. -/
def takesBody (w : World) (method : Bytes) (level : Int) : Bool :=
  !w.closing && !w.responded && (method = ascii "POST" || method = ascii "DELETE") && 2 ≤ level

section Buffer

variable {cfg : Cfg} {o : Oracle} {c : Ctx} {w w' : World} {inbuf : Bytes}

theorem ite_inbuf {q : Prop} [Decidable q] {x y x' y' : World} (hThen : q → x = { x' with inbuf })
    (hElse : ¬ q → y = { y' with inbuf }) :
    (if q then x else y) = { (if q then x' else y') with inbuf } := by
  split
  · exact hThen ‹_›
  · exact hElse ‹_›

theorem respond_inbuf (hHead : requestHead inbuf = requestHead w.inbuf) (out : Output) :
    respond c { w with inbuf } out = { respond c w out with inbuf } := by
  unfold respond World.note World.close
  dsimp only
  rw [hHead]
  split_ifs <;> rfl

theorem respond401_inbuf (hHead : requestHead inbuf = requestHead w.inbuf) :
    respond401 c { w with inbuf } = { respond401 c w with inbuf } := by
  unfold respond401 World.note World.close
  dsimp only
  rw [hHead]
  split_ifs <;> rfl

theorem serveStatic_inbuf (hHead : requestHead inbuf = requestHead w.inbuf) (path : Bytes) :
    serveStatic c { w with inbuf } path = { serveStatic c w path with inbuf } := by
  unfold serveStatic respondError
  dsimp only
  generalize (if path = ascii "/" then ascii "/index.html" else path) = rel
  repeat' split
  all_goals exact respond_inbuf hHead _

/-- Without a body the dispatcher does the same with any bytes behind the head. -/
theorem httpDispatchLevel_inbuf (hHead : requestHead inbuf = requestHead w.inbuf)
    {method : Bytes} {level : Int} (hBody : takesBody w method level = true → inbuf = w.inbuf)
    (path user : Bytes) : httpDispatchLevel c { w with inbuf } method path level user =
      { httpDispatchLevel c w method path level user with inbuf } := by
  by_cases hSame : inbuf = w.inbuf
  · have hSelf : ∀ r : World, r.inbuf = inbuf → { r with inbuf } = r := by
      rintro r rfl
      rfl
    have hInbuf := (answers_httpDispatchLevel c w method path level user).adds.inbuf
    rw [hSelf w hSame.symm, hSelf _ (hInbuf.trans hSame.symm)]
  have hNoBody : ¬ takesBody w method level = true := fun h => hSame (hBody h)
  have hError : ∀ status message, respondError c { w with inbuf } status message =
      { respondError c w status message with inbuf } := fun _ _ => respond_inbuf hHead _
  unfold httpDispatchLevel
  refine ite_inbuf (fun _ => rfl) fun (hDone : ¬ (w.closing || w.responded) = true) => ?_
  refine ite_inbuf (fun _ => respond401_inbuf hHead) fun hZero => ?_
  refine ite_inbuf (fun _ => hError ..) fun hLimited => ?_
  refine ite_inbuf (fun _ => hError ..) fun hUntagged => ?_
  refine ite_inbuf (fun hChange => ite_inbuf (fun _ => hError ..) fun hMore => ?_) fun _ =>
    ite_inbuf (fun _ => hError ..) fun _ => ?_
  · -- only a management user gets here
    rw [Bool.or_eq_true, not_or, Bool.not_eq_true, Bool.not_eq_true] at hDone
    refine absurd ?_ hNoBody
    simp only [takesBody, hDone.1, hDone.2, hChange, Bool.not_false, Bool.true_and,
      decide_eq_true_eq]
    omega
  cases documentAt path user level with
  | some d => exact respond_inbuf hHead _
  | none => exact ite_inbuf (fun _ => hError ..) fun _ => serveStatic_inbuf hHead path

/-- The level that a request gets at once: the bootstrap window is for the token. -/
def levelAtOnce (cfg : Cfg) (w : World) : Int :=
  if w.store.all AuthDb.authstoreIsOpen && hasBootstrapToken cfg.token (requestHead w.inbuf)
  then 3 else 0

/-- `mgmt_auth_start` deals with the request at once, or starts a verification and stops reading.
-/
theorem mgmtAuthStart_inbuf (hHead : requestHead inbuf = requestHead w.inbuf) {method : Bytes}
    (hBody : takesBody w method (levelAtOnce cfg w) = true → inbuf = w.inbuf) (path : Bytes) :
    mgmtAuthStart cfg o { w with inbuf } method path (requestHead w.inbuf) =
      { mgmtAuthStart cfg o w method path (requestHead w.inbuf) with inbuf } := by
  have hNoBody : ∀ level ≤ 1, takesBody w method level = true → inbuf = w.inbuf := by
    intro level hLow hTakes
    simp only [takesBody, Bool.and_eq_true, decide_eq_true_eq] at hTakes
    omega
  unfold mgmtAuthStart respondError
  dsimp only
  have hWindow : w.store.all AuthDb.authstoreIsOpen = true →
      httpDispatchLevel { cfg, oracle := o, asked := w.store }
          { w with inbuf, store := w.store.map o.between } method path
          (if hasBootstrapToken cfg.token (requestHead w.inbuf) then 3 else 0) [] =
        { httpDispatchLevel { cfg, oracle := o, asked := w.store }
            { w with store := w.store.map o.between } method path
            (if hasBootstrapToken cfg.token (requestHead w.inbuf) then 3 else 0) [] with inbuf } := by
    intro hOpen
    refine httpDispatchLevel_inbuf (w := { w with store := w.store.map o.between }) hHead ?_ path []
    rw [levelAtOnce, hOpen, Bool.true_and] at hBody
    exact hBody
  split
  · rename_i hStore
    exact hWindow (by rw [hStore]; rfl)
  rename_i s hStore
  split
  · rename_i hOpen
    exact hWindow (by rw [hStore]; exact hOpen)
  split
  · exact httpDispatchLevel_inbuf (w := { w with store := w.store.map o.between }) hHead
      (hNoBody 0 (by decide)) path []
  split
  · exact httpDispatchLevel_inbuf (w := { w with store := w.store.map o.between }) hHead
      (hNoBody (-2) (by decide)) path []
  split
  · exact respond_inbuf (w := { w with store := w.store.map o.between }) hHead _
  split
  · rfl
  · exact respond_inbuf (w := { w with store := w.store.map o.between, reading := false }) hHead _

theorem handleRequest_inbuf (hHead : requestHead inbuf = requestHead w.inbuf)
    (hLine : requestLine inbuf = requestLine w.inbuf)
    (hBody : (requestLine w.inbuf).any (fun line => takesBody w line.1 (levelAtOnce cfg w)) = true →
      inbuf = w.inbuf) :
    handleRequest cfg o { w with inbuf } = { handleRequest cfg o w with inbuf } := by
  unfold handleRequest respondError
  dsimp only
  rw [hLine]
  split
  · exact respond_inbuf hHead _
  rename_i method path hRequest
  split
  · exact respond_inbuf hHead _
  · rw [hHead]
    refine mgmtAuthStart_inbuf hHead (fun hTakes => hBody ?_) path
    rw [hRequest]
    exact hTakes

end Buffer

/-! ## Connections that are done -/

section Settled

variable {cfg : Cfg} {o : Oracle} {c : Ctx} {ok : Output → Prop} {w w' : World}

/-- The request is answered, or never will be. -/
def World.Settled (w : World) : Prop :=
  w.closing = true ∨ w.responded = true ∨ (w.refused = true ∧ w.pendingAuth = none)

theorem Answers.eq_of_done (h : Answers c ok w w')
    (hDone : w.closing = true ∨ w.responded = true) : w' = w := by
  have hNot : ¬ (w.closing = false ∧ w.responded = false) := by
    rintro ⟨hOpen, hSilent⟩
    simp [hOpen, hSilent] at hDone
  cases h with
  | idle => rfl
  | answer =>
    refine if_pos ?_
    rw [Bool.or_comm, Bool.or_eq_true]
    exact hDone
  | refuse hSilent => exact absurd hSilent hNot
  | change hSilent => exact absurd hSilent hNot

theorem settled_respond (c : Ctx) (w : World) (out : Output) : (respond c w out).Settled := by
  unfold respond
  split
  · rename_i hDone
    rw [Bool.or_eq_true] at hDone
    exact hDone.elim (fun h => .inr (.inl h)) .inl
  dsimp only
  split
  · exact .inr (.inl rfl)
  · exact .inl rfl

theorem Answers.settled (h : Answers c ok w w') (hNone : w.pendingAuth = none) : w'.Settled := by
  cases h with
  | idle hDone => exact hDone.elim .inl fun h => .inr (.inl h)
  | answer => exact settled_respond ..
  | refuse =>
    unfold respond401
    split
    · exact .inr (.inr ⟨by simp [World.refused, World.note], hNone⟩)
    · exact .inl rfl
  | change => exact settled_respond ..

/-- The level that a verification gives. -/
def AuthWork.level (cfg : Cfg) (w : World) (work : AuthWork) : Int :=
  if work.result cfg then mgmtLevelFromTags (w.store.elim 0 fun s => userTags s work.user) else 0

theorem httpAuthAfterCb_eq (cfg : Cfg) (o : Oracle) (w : World) (work : AuthWork) :
    ∃ user, httpAuthAfterCb cfg o w work =
      httpDispatchLevel { cfg, oracle := o, asked := w.store, work := some work }
        { w with pendingAuth := none, store := w.store.map o.between } work.method work.path
        (work.level cfg w) user := by
  unfold httpAuthAfterCb AuthWork.level
  dsimp only
  split
  · exact ⟨work.user, rfl⟩
  · exact ⟨[], rfl⟩

/-- Nothing more is logged on a connection that is done, as long as nothing is read behind a
401. -/
theorem World.Settled.step {ev : Event} (h : w.Settled) (hStep : Http.step cfg w ev = some w')
    (hQuiet : ∀ data o, ev = .read data o → w.refused = false) : w'.log = w.log ∧ w'.Settled := by
  cases ev with
  | read data o =>
    rw [Http.step] at hStep
    split at hStep
    · rename_i hReads
      cases hStep
      rw [Bool.and_eq_true, Bool.not_eq_true'] at hReads
      have hResponded : w.responded = true := by
        obtain hClosing | hResponded | hRefused := h
        · rw [hReads.2] at hClosing
          cases hClosing
        · exact hResponded
        · rw [hQuiet data o rfl] at hRefused
          cases hRefused.1
      have hHandles := handles_onHttpRead cfg o w data
      generalize onHttpRead cfg o w data = w' at hHandles ⊢
      cases hHandles with
      | waits => exact ⟨rfl, .inr (.inl hResponded)⟩
      | answers hAnswers hLog hSame _ =>
        rw [hAnswers.eq_of_done (.inr (hSame.trans hResponded))]
        exact ⟨hLog, .inr (.inl (hSame.trans hResponded))⟩
      | starts hLog hSame _ => exact ⟨hLog, .inr (.inl (hSame.trans hResponded))⟩
    · cases hStep
  | hangUp =>
    cases hStep
    exact ⟨rfl, .inl rfl⟩
  | handlesClosed =>
    rw [Http.step] at hStep
    split at hStep
    · rename_i hClosing
      cases hStep
      exact ⟨rfl, .inl hClosing⟩
    · cases hStep
  | authDone o =>
    obtain ⟨work, hWork, rfl⟩ := Option.map_eq_some_iff.mp hStep
    have hDone : w.closing = true ∨ w.responded = true := by
      obtain hClosing | hResponded | hRefused := h
      · exact .inl hClosing
      · exact .inr hResponded
      · rw [hWork] at hRefused
        cases hRefused.2
    obtain ⟨user, hLevel⟩ := httpAuthAfterCb_eq cfg o w work
    rw [hLevel, (answers_httpDispatchLevel ..).eq_of_done (by exact hDone)]
    exact ⟨rfl, hDone.elim .inl fun h => .inr (.inl h)⟩
  | storeChanges s =>
    cases hStep
    exact ⟨rfl, h⟩

/-- A request that is handed over is settled, or its password is verified and reading stops. -/
theorem settled_handleRequest (cfg : Cfg) (o : Oracle) (hNone : w.pendingAuth = none) :
    (handleRequest cfg o w).Settled ∨ (handleRequest cfg o w).reading = false ∧
      (handleRequest cfg o w).pendingAuth.isSome = true := by
  unfold handleRequest mgmtAuthStart respondError
  dsimp only
  repeat' split
  all_goals
    first
    | exact .inl (settled_respond ..)
    | exact .inl ((answers_httpDispatchLevel ..).settled hNone)
    | exact .inr ⟨rfl, rfl⟩

theorem inbuf_handleRequest (cfg : Cfg) (o : Oracle) (w : World) :
    (handleRequest cfg o w).inbuf = w.inbuf := by
  unfold handleRequest mgmtAuthStart respondError
  dsimp only
  repeat' split
  all_goals
    first
    | exact (adds_respond_only _).inbuf
    | exact (answers_httpDispatchLevel ..).adds.inbuf
    | rfl

end Settled

/-! ## Runs -/

/-- An event that cannot happen is left out. -/
def advance (cfg : Cfg) (w : World) (ev : Event) : World := (step cfg w ev).getD w

def run (cfg : Cfg) (w : World) (es : List Event) : World := es.foldl (advance cfg) w

def bytesRead (es : List Event) : Bytes :=
  es.flatMap fun
    | .read data _ => data
    | _ => []

/-- The same events with the request in one read, in the place of the read that completes it;
`left` bytes of it are missing. -/
def inOneRead (req : Bytes) : Nat → List Event → List Event
  | _, [] => []
  | left, .read data o :: es =>
    if left = 0 then inOneRead req 0 es
    else if data.length < left then inOneRead req (left - data.length) es
    else .read req o :: inOneRead req 0 es
  | left, ev :: es => ev :: inOneRead req left es

/-- The event makes `http_dispatch_level` take a body out of the buffer. -/
def bodyTaken (cfg : Cfg) (w : World) : Event → Bool
  | .read data _ =>
    let w := { w with inbuf := w.inbuf ++ data }
    (requestLine w.inbuf).any fun line => takesBody w line.1 (levelAtOnce cfg w)
  | .authDone _ =>
    w.pendingAuth.any fun work => takesBody w work.method (work.level cfg w)
  | _ => false

/-- Nothing is read behind a 401. The read that completes the request brings nothing beyond it
where its line is not complete without, or a body is taken; and nothing is in the buffer beyond it
when a body is taken after a verification. -/
def clean (cfg : Cfg) (req : Bytes) (w : World) (ev : Event) : Bool :=
  (step cfg w ev).isNone ||
    match ev with
    | .read data _ =>
      !w.refused && ((w.inbuf ++ data).length < req.length || w.responded ||
        (requestLine req).isSome && !bodyTaken cfg w ev || w.inbuf ++ data = req)
    | _ => !bodyTaken cfg w ev || w.inbuf = req

def undisturbed (cfg : Cfg) (req : Bytes) : World → List Event → Bool
  | _, [] => true
  | w, ev :: es => clean cfg req w ev && undisturbed cfg req (advance cfg w ev) es

section Runs

variable {cfg : Cfg} {req more : Bytes} {he clen left : Nat} {a b : World} {ev : Event}

/-- The connection `a` that gets the request in pieces, and `b` that gets it in one. -/
inductive Together (req : Bytes) : Nat → World → World → Prop
  /-- Bytes of the request are missing. -/
  | waiting {left : Nat} {w : World} {front : Bytes} (hLeft : front.length + left = req.length)
      (hMissing : 0 < left) (hEmpty : w.inbuf = []) (hOpen : w.closing = false)
      (hReading : w.reading = true) (hSilent : w.responded = false) (hIdle : w.pendingAuth = none) :
      Together req left { w with inbuf := front } w
  | verifying {w : World} {extra : Bytes} (hInbuf : w.inbuf = req) (hStopped : w.reading = false)
      (hWork : w.pendingAuth.isSome = true) : Together req 0 { w with inbuf := req ++ extra } w
  | settled {left : Nat} {a b : World} (hLog : a.log = b.log) (ha : a.Settled) (hb : b.Settled)
      (hDone : left = 0 ∨ b.closing = true) : Together req left a b

theorem Together.log (h : Together req left a b) : a.log = b.log := by
  cases h with
  | waiting | verifying => rfl
  | settled hLog => exact hLog

theorem World.Settled.advance {w : World} (h : w.Settled) (cfg : Cfg)
    (hQuiet : ∀ data o, ev = .read data o → (Http.step cfg w ev).isSome → w.refused = false) :
    (Http.advance cfg w ev).log = w.log ∧ (Http.advance cfg w ev).Settled := by
  unfold Http.advance
  cases hStep : Http.step cfg w ev with
  | none => exact ⟨rfl, h⟩
  | some w' => exact h.step hStep fun data o hRead => hQuiet data o hRead (by rw [hStep]; rfl)

theorem closing_advance {w : World} (h : w.closing = true) : (advance cfg w ev).closing = true := by
  unfold advance
  cases hStep : step cfg w ev with
  | none => exact h
  | some w' =>
    cases ev with
    | read data o => simp [step, h] at hStep
    | hangUp =>
      cases hStep
      rfl
    | handlesClosed =>
      rw [step, if_pos h] at hStep
      cases hStep
      exact h
    | authDone o =>
      obtain ⟨work, -, rfl⟩ := Option.map_eq_some_iff.mp hStep
      obtain ⟨user, hLevel⟩ := httpAuthAfterCb_eq cfg o w work
      rw [hLevel, (answers_httpDispatchLevel ..).eq_of_done (.inl (by exact h))]
      exact h
    | storeChanges s =>
      cases hStep
      exact h

theorem advance_handlesClosed (w : World) : advance cfg w .handlesClosed =
    if w.closing then { w with freed := true, pendingAuth := none } else w := by
  rw [advance, step]
  split <;> rfl

/-- The verification ends in the same way for both. -/
theorem httpAuthAfterCb_inbuf (hHead : headerEnd req = some he) (hInbuf : b.inbuf = req)
    {work : AuthWork} {extra : Bytes} (o : Oracle)
    (hBody : takesBody b work.method (work.level cfg b) = true → extra = []) :
    httpAuthAfterCb cfg o { b with inbuf := req ++ extra } work =
      { httpAuthAfterCb cfg o b work with inbuf := req ++ extra } := by
  have hSeen : requestHead (req ++ extra) = requestHead b.inbuf := by
    rw [requestHead_append hHead, hInbuf]
  have hSame : ∀ level user, (takesBody b work.method level = true → extra = []) →
      httpDispatchLevel { cfg, oracle := o, asked := b.store, work := some work }
          { b with inbuf := req ++ extra, pendingAuth := none, store := b.store.map o.between }
          work.method work.path level user =
        { httpDispatchLevel { cfg, oracle := o, asked := b.store, work := some work }
            { b with pendingAuth := none, store := b.store.map o.between } work.method work.path
            level user with inbuf := req ++ extra } := by
    intro level user hNone
    refine httpDispatchLevel_inbuf
      (w := { b with pendingAuth := none, store := b.store.map o.between }) hSeen
      (fun hTakes => ?_) work.path user
    rw [hNone hTakes, append_nil]
    exact hInbuf.symm
  unfold httpAuthAfterCb
  unfold AuthWork.level at hBody
  dsimp only
  split
  · rename_i hResult
    rw [if_pos hResult] at hBody
    exact hSame _ _ hBody
  · rename_i hResult
    rw [if_neg hResult] at hBody
    exact hSame _ _ hBody

/-- What is not a read happens to both. -/
theorem Together.other (hHead : headerEnd req = some he) (h : Together req left a b)
    (hOther : ∀ data o, ev ≠ .read data o) (hClean : clean cfg req a ev = true) :
    Together req left (advance cfg a ev) (advance cfg b ev) := by
  cases h with
  | settled hLog ha hb hDone =>
    obtain ⟨hLogA, hA⟩ := ha.advance cfg fun data o h => absurd h (hOther data o)
    obtain ⟨hLogB, hB⟩ := hb.advance cfg fun data o h => absurd h (hOther data o)
    refine .settled (by rw [hLogA, hLogB, hLog]) hA hB (hDone.imp_right fun hClosing => ?_)
    exact closing_advance hClosing
  | @waiting _ _ front hLeft hMissing hEmpty hOpen hReading hSilent hIdle =>
    cases ev with
    | read data o => exact absurd rfl (hOther data o)
    | hangUp => exact .settled rfl (.inl rfl) (.inl rfl) (.inr rfl)
    | handlesClosed =>
      rw [advance_handlesClosed, advance_handlesClosed, if_neg (by simp [hOpen]),
        if_neg (by simp [hOpen])]
      exact .waiting hLeft hMissing hEmpty hOpen hReading hSilent hIdle
    | authDone o =>
      have hNone : ∀ w : World, w.pendingAuth = none → advance cfg w (.authDone o) = w := by
        intro w hw
        rw [advance, step, hw]
        rfl
      rw [hNone b hIdle, hNone _ (by exact hIdle)]
      exact .waiting hLeft hMissing hEmpty hOpen hReading hSilent hIdle
    | storeChanges s =>
      exact .waiting (w := { b with store := s }) hLeft hMissing hEmpty hOpen hReading hSilent hIdle
  | @verifying _ extra hInbuf hStopped hWork =>
    cases ev with
    | read data o => exact absurd rfl (hOther data o)
    | hangUp => exact .verifying (w := b.close) hInbuf hStopped hWork
    | handlesClosed =>
      rw [advance_handlesClosed, advance_handlesClosed]
      dsimp only
      split
      · rename_i hClosing
        exact .settled rfl (.inl hClosing) (.inl hClosing) (.inl rfl)
      · exact .verifying hInbuf hStopped hWork
    | authDone o =>
      obtain ⟨work, hWork⟩ := Option.isSome_iff_exists.mp hWork
      have hStep : ∀ w : World, w.pendingAuth = some work →
          step cfg w (.authDone o) = some (httpAuthAfterCb cfg o w work) := by
        intro w hw
        rw [step, hw]
        rfl
      have hBody : takesBody b work.method (work.level cfg b) = true → extra = [] := by
        intro hTakes
        unfold clean at hClean
        rw [hStep _ (by exact hWork)] at hClean
        have hTaken : bodyTaken cfg { b with inbuf := req ++ extra } (.authDone o) = true := by
          rw [bodyTaken]
          dsimp only
          rw [hWork]
          exact hTakes
        simpa [hTaken] using hClean
      rw [advance, advance, hStep b hWork, hStep _ (by exact hWork), Option.getD_some,
        Option.getD_some, httpAuthAfterCb_inbuf hHead hInbuf o hBody]
      have hSettled : (httpAuthAfterCb cfg o b work).Settled := by
        obtain ⟨user, hLevel⟩ := httpAuthAfterCb_eq cfg o b work
        rw [hLevel]
        exact (answers_httpDispatchLevel ..).settled rfl
      exact .settled rfl hSettled hSettled (.inl rfl)
    | storeChanges s => exact .verifying (w := { b with store := s }) hInbuf hStopped hWork

/-- The read that completes the request hands it over in both. -/
theorem Together.handled (h : Complete cfg req he clen) {o : Oracle} (hEmpty : b.inbuf = [])
    (hIdle : b.pendingAuth = none) {extra : Bytes}
    (hExtra : requestLine req = none ∨ bodyTaken cfg b (.read (req ++ extra) o) = true →
      extra = []) :
    Together req 0 (handleRequest cfg o { b with inbuf := req ++ extra })
      (handleRequest cfg o { b with inbuf := req }) := by
  have hSeen := requestHead_append h.head extra
  have hLine : requestLine (req ++ extra) = requestLine req := by
    rcases hRequest : requestLine req with _ | line
    · rw [hExtra (.inl hRequest), append_nil, hRequest]
    · exact requestLine_append hRequest extra
  have hSame : handleRequest cfg o { b with inbuf := req ++ extra } =
      { handleRequest cfg o { b with inbuf := req } with inbuf := req ++ extra } := by
    refine handleRequest_inbuf (w := { b with inbuf := req }) hSeen hLine fun hTakes => ?_
    have hLevel : levelAtOnce cfg { b with inbuf := req ++ extra } =
        levelAtOnce cfg { b with inbuf := req } := by
      unfold levelAtOnce
      dsimp only
      rw [hSeen]
    rw [hExtra (.inr ?_), append_nil]
    rw [bodyTaken, hEmpty, nil_append]
    dsimp only
    rw [hLine, hLevel]
    exact hTakes
  rw [hSame]
  obtain hSettled | ⟨hStopped, hWork⟩ :=
    settled_handleRequest (w := { b with inbuf := req }) cfg o hIdle
  · exact .settled rfl hSettled hSettled (.inl rfl)
  · refine .verifying ?_ hStopped hWork
    exact inbuf_handleRequest ..

theorem bytesRead_cons_other (hOther : ∀ data o, ev ≠ .read data o)
    (es : List Event) : bytesRead (ev :: es) = bytesRead es := by
  cases ev with
  | read data o => exact absurd rfl (hOther data o)
  | _ => rfl

theorem inOneRead_cons_other (hOther : ∀ data o, ev ≠ .read data o) (left : Nat)
    (es : List Event) : inOneRead req left (ev :: es) = ev :: inOneRead req left es := by
  cases ev with
  | read data o => exact absurd rfl (hOther data o)
  | _ =>
    rw [inOneRead]
    exact fun _ _ h => by cases h

theorem inbuf_advance_other (hOther : ∀ data o, ev ≠ .read data o) (w : World) :
    (advance cfg w ev).inbuf = w.inbuf := by
  cases ev with
  | read data o => exact absurd rfl (hOther data o)
  | hangUp | storeChanges => rfl
  | handlesClosed =>
    rw [advance_handlesClosed]
    split <;> rfl
  | authDone o =>
    rw [advance, step]
    cases w.pendingAuth with
    | none => rfl
    | some work =>
      obtain ⟨user, hLevel⟩ := httpAuthAfterCb_eq cfg o w work
      rw [Option.map_some, Option.getD_some, hLevel]
      exact (answers_httpDispatchLevel ..).adds.inbuf

theorem advance_read {w : World} (hReading : w.reading = true) (hOpen : w.closing = false)
    (data : Bytes) (o : Oracle) : advance cfg w (.read data o) = onHttpRead cfg o w data := by
  simp [advance, step, hReading, hOpen]

theorem advance_deaf {w : World} (hDeaf : w.reading = false ∨ w.closing = true) (data : Bytes)
    (o : Oracle) : advance cfg w (.read data o) = w := by
  obtain hDeaf | hDeaf := hDeaf <;> simp [advance, step, hDeaf]

/-- As long as bytes of the request are missing, they are read. -/
theorem Together.listening (h : Together req left a b) (hMissing : 0 < left)
    (hOpen : b.closing = false) : a.reading = true ∧ a.closing = false := by
  cases h with
  | waiting _ _ _ hOpen hReading => exact ⟨hReading, hOpen⟩
  | verifying => exact absurd hMissing (Nat.lt_irrefl 0)
  | settled _ _ _ hDone =>
    obtain hDone | hDone := hDone
    · omega
    · rw [hDone] at hOpen
      cases hOpen

theorem inbuf_onHttpRead {w : World} {data : Bytes} {o : Oracle} (hGrows : o.grows = true) :
    (onHttpRead cfg o w data).inbuf = w.inbuf ++ data := by
  unfold onHttpRead respondError
  rw [hGrows]
  dsimp only
  rw [if_neg (by decide)]
  repeat' split
  all_goals
    first
    | rfl
    | exact (adds_respond_only _).inbuf
    | exact inbuf_handleRequest ..

theorem clean_read {data : Bytes} {o : Oracle} (hClean : clean cfg req a (.read data o) = true)
    (hStep : (step cfg a (.read data o)).isSome = true) : a.refused = false ∧
      (req.length ≤ (a.inbuf ++ data).length → a.responded = false →
        requestLine req = none ∨ bodyTaken cfg a (.read data o) = true →
          a.inbuf ++ data = req) := by
  unfold clean at hClean
  rw [Option.isNone_eq_false_iff.mpr hStep, Bool.false_or, Bool.and_eq_true, Bool.not_eq_true']
    at hClean
  refine ⟨hClean.1, fun hAll hSilent hBare => ?_⟩
  have hExact := hClean.2
  simp only [Nat.not_lt.mpr hAll, hSilent, decide_false, Bool.false_or, Bool.or_eq_true,
    Bool.and_eq_true, Bool.not_eq_true', decide_eq_true_eq] at hExact
  refine hExact.resolve_left ?_
  rintro ⟨hLine, hNoBody⟩
  obtain hNone | hTaken := hBare
  · rw [hNone] at hLine
    cases hLine
  · rw [hTaken] at hNoBody
    cases hNoBody

/-- A read takes both on: it is one more piece of the request or completes it, it is not seen, or
it comes when all is done. -/
theorem Together.read (h : Complete cfg req he clen) (hTogether : Together req left a b)
    {data : Bytes} {o : Oracle} (hGrows : o.grows = true)
    (hStream : 0 < left → b.closing = false → a.inbuf ++ data <+: req ++ more)
    (hClean : clean cfg req a (.read data o) = true) :
    Together req (left - data.length) (advance cfg a (.read data o))
      (if 0 < left ∧ left ≤ data.length then advance cfg b (.read req o) else b) := by
  cases hTogether with
  | @waiting _ _ front hLeft hMissing hEmpty hOpen hReading hSilent hIdle =>
    have hFront := hStream hMissing hOpen
    rw [advance_read (by exact hReading) (by exact hOpen), h.onHttpRead_eq hGrows hFront]
    dsimp only at hFront ⊢
    by_cases hPart : data.length < left
    · rw [if_neg (by rw [length_append]; omega), if_neg (by omega)]
      exact .waiting (by rw [length_append]; omega) (by omega) hEmpty hOpen hReading hSilent hIdle
    · have hAll : req.length ≤ (front ++ data).length := by
        rw [length_append]
        omega
      obtain ⟨extra, hExtra⟩ := prefix_of_prefix_length_le (prefix_append req more) hFront hAll
      have hOne := h.onHttpRead_eq hGrows (show b.inbuf ++ req <+: req ++ [] by simp [hEmpty])
      rw [hEmpty, nil_append, if_pos (Nat.le_refl _)] at hOne
      rw [if_pos hAll, if_pos ⟨hMissing, Nat.not_lt.mp hPart⟩, advance_read hReading hOpen, hOne,
        ← hExtra, Nat.sub_eq_zero_of_le (Nat.not_lt.mp hPart)]
      refine Together.handled h hEmpty hIdle fun hBare => ?_
      have hTaken : bodyTaken cfg { b with inbuf := front } (.read data o) =
          bodyTaken cfg b (.read (req ++ extra) o) := by
        rw [bodyTaken, bodyTaken, hExtra, hEmpty, nil_append]
      have hExact := (clean_read hClean (by simp [step, hReading, hOpen])).2 hAll hSilent
        (hBare.imp_right hTaken.trans)
      rw [← hExtra] at hExact
      exact append_right_eq_self.mp hExact
  | @verifying _ extra hInbuf hStopped hWork =>
    rw [advance_deaf (w := { b with inbuf := req ++ extra }) (.inl hStopped), if_neg (by omega),
      Nat.zero_sub]
    exact .verifying hInbuf hStopped hWork
  | settled hLog ha hb hDone =>
    obtain ⟨hLogA, hA⟩ := ha.advance cfg fun _ _ _ hStep => (clean_read hClean hStep).1
    have hB : (if 0 < left ∧ left ≤ data.length then advance cfg b (.read req o) else b) = b := by
      split
      · exact advance_deaf (.inr (hDone.resolve_left (by omega))) req o
      · rfl
    rw [hB]
    exact .settled (hLogA.trans hLog) hA hb (hDone.imp_left (by omega))

/-- **Both connections put out the same**, from any point on. -/
theorem Together.run (h : Complete cfg req he clen) {es : List Event}
    (hTogether : Together req left a b) (hGrows : ∀ data o, Event.read data o ∈ es → o.grows = true)
    (hStream : 0 < left → b.closing = false → a.inbuf ++ bytesRead es <+: req ++ more)
    (hClean : undisturbed cfg req a es = true) :
    (Http.run cfg a es).log = (Http.run cfg b (inOneRead req left es)).log := by
  induction es generalizing left a b with
  | nil => exact hTogether.log
  | cons ev es ih =>
    have hGrows' : ∀ data o, Event.read data o ∈ es → o.grows = true :=
      fun data o hMem => hGrows data o (mem_cons_of_mem ev hMem)
    rw [undisturbed, Bool.and_eq_true] at hClean
    by_cases hRead : ∃ data o, ev = .read data o
    · obtain ⟨data, o, rfl⟩ := hRead
      have hBytes : bytesRead (.read data o :: es) = data ++ bytesRead es := rfl
      rw [hBytes, ← append_assoc] at hStream
      have hNext := hTogether.read h (hGrows data o mem_cons_self)
        (fun hLeft hOpen => (prefix_append _ _).trans (hStream hLeft hOpen)) hClean.1
      have hRest : (Http.run cfg b (inOneRead req left (.read data o :: es))).log =
          (Http.run cfg (if 0 < left ∧ left ≤ data.length then advance cfg b (.read req o) else b)
            (inOneRead req (left - data.length) es)).log := by
        rw [inOneRead]
        split
        · rw [if_neg (by omega), show left - data.length = 0 by omega]
        split
        · rw [if_neg (by omega)]
        · rw [if_pos (by omega), show left - data.length = 0 by omega]
          rfl
      rw [hRest]
      refine ih hNext hGrows' (fun hLeft hOpen => ?_) hClean.2
      rw [if_neg (by omega)] at hOpen
      obtain ⟨hReading, hOpenA⟩ := hTogether.listening (by omega) hOpen
      rw [advance_read hReading hOpenA, inbuf_onHttpRead (hGrows data o mem_cons_self)]
      exact hStream (by omega) hOpen
    · have hOther : ∀ data o, ev ≠ .read data o := fun data o hEv => hRead ⟨data, o, hEv⟩
      rw [inOneRead_cons_other hOther]
      refine ih (hTogether.other h.head hOther hClean.1) hGrows' (fun hLeft hOpen => ?_) hClean.2
      rw [inbuf_advance_other hOther]
      rw [bytesRead_cons_other hOther] at hStream
      refine hStream hLeft (Bool.eq_false_iff.mpr fun hClosing => ?_)
      rw [closing_advance hClosing] at hOpen
      cases hOpen

end Runs

/-- **Framing of a request.** However a complete request and what follows it are cut into reads,
and whatever happens besides, the connection puts out what it puts out when the request comes in
one read and nothing follows, as long as the run is undisturbed. Method, path and headers are the
same with any bytes behind the request, and its body is what follows the head. -/
theorem request_framing {cfg : Cfg} {req : Bytes} {he clen : Nat} (h : Complete cfg req he clen)
    (store : Option AuthDb.Store) (es : List Event) (more : Bytes)
    (hGrows : ∀ data o, Event.read data o ∈ es → o.grows = true)
    (hStream : bytesRead es <+: req ++ more)
    (hClean : undisturbed cfg req (start store) es = true) :
    (run cfg (start store) es).log =
      (run cfg (start store) (inOneRead req req.length es)).log ∧
    (∀ line extra, requestLine req = some line →
      requestLine (req ++ extra) = some line ∧ requestHead (req ++ extra) = requestHead req) ∧
    requestBody req = req.drop (he + 4) ∧ (requestBody req).length = clen := by
  have hBody : requestBody req = req.drop (he + 4) := by
    rw [requestBody, h.head, Option.elim_some]
  have hMissing : 0 < req.length := by
    rw [h.size]
    omega
  have hTogether : Together req req.length (start store) (start store) :=
    .waiting (w := start store) (Nat.zero_add _) hMissing rfl rfl rfl rfl rfl
  refine ⟨hTogether.run h hGrows (fun _ _ => hStream) hClean, ?_, hBody, ?_⟩
  · intro line extra hLine
    exact ⟨requestLine_append hLine extra, requestHead_append h.head extra⟩
  · rw [hBody, length_drop, h.size]
    omega

/-- A server with a bootstrap token. -/
def tokenCfg : Cfg := { gateCfg with token := ascii "t" }

def vhostRequest : Bytes :=
  ascii "POST /api/vhosts HTTP/1.1\r\nX-Bootstrap-Token: t\r\nContent-Length: 12\r\n\r\n" ++
    nameBody

theorem complete_vhostRequest : Complete tokenCfg vhostRequest 67 12 :=
  ⟨by decide +kernel, by decide +kernel, by decide, by decide, by decide +kernel⟩

/-- The request in two reads, and one more byte in a third. -/
def vhostReads : List Event :=
  [.read (vhostRequest.take 30) {}, .read (vhostRequest.drop 30) {}, .read [120] {}]

theorem request_framing_two_reads :
    (run tokenCfg (start (some {})) vhostReads).log.map Entry.output =
      [.cfgApply (.addVhost (ascii "v")), .applied] ∧
    (run tokenCfg (start (some {})) vhostReads).log =
      (run tokenCfg (start (some {})) (inOneRead vhostRequest vhostRequest.length vhostReads)).log := by
  refine ⟨by decide +kernel, (request_framing complete_vhostRequest (some {}) vhostReads [120] ?_
    ⟨[], by decide +kernel⟩ (by decide +kernel)).1⟩
  intro data o hMem
  simp only [vhostReads, mem_cons, Event.read.injEq, not_mem_nil, or_false] at hMem
  obtain ⟨-, rfl⟩ | ⟨-, rfl⟩ | ⟨-, rfl⟩ := hMem <;> rfl

/-- With one byte behind it the request adds the vhost when the byte is read by itself, and is
refused when the byte comes with the same read. -/
theorem action_depends_on_split :
    (run tokenCfg (start (some {})) vhostReads).log.map Entry.output =
      [.cfgApply (.addVhost (ascii "v")), .applied] ∧
    (run tokenCfg (start (some {})) [.read (vhostRequest ++ [120]) {}]).log.map Entry.output =
      [.error 400 (ascii "missing/invalid 'name'")] := by
  decide +kernel

end BeaverMQ.Http
