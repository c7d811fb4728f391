import BeaverMQ.Server.Discipline

/-!
# BeaverMQ — the publisher confirms of a connection

A connection takes turns: a frame, the end of a password verification, the poll of a pending op,
a delivery by its worker. What a turn asks may be answered in any way. A `Book` is kept beside the
connection, from what the turns do alone: for each open channel how many publishes were completed
in confirm mode and which tags were answered, and the confirms that answer nothing.
-/

namespace BeaverMQ.Amqp

open List Bytes Function Proto Prog

/-! ## Actions that are not noted -/

/-- An action that sends no confirm. -/
def Act.Still : Act → Prop
  | .send _ bytes => isConfirm bytes = false
  | _ => True

theorem Act.Covered.still {a : Act} {rs : List Right} (h : a.Covered rs) : a.Still := by
  cases a with
  | send _ _ => exact h
  | _ => trivial

theorem Act.Routing.still {a : Act} (h : a.Routing) : a.Still := by
  cases a with
  | send _ _ => exact h.elim
  | _ => trivial

theorem does_permOk {cfg : Cfg} (p : Proto) (kind : AuthKind) (object : Bytes) :
    (permOk cfg p kind object).Does Act.Still := by
  unfold permOk
  split
  · exact does_last (a := .ask _) trivial
  · trivial

theorem isConfirm_deliverBytes (c : Consumer) (tag frameMax : Nat) (m : Msg) :
    isConfirm (deliverBytes c tag frameMax m) = false := by
  have hHead : ∃ args rest, deliverBytes c tag frameMax m =
      methodFrame c.channel classBasic basicDeliver args ++ rest := by
    refine ⟨putShortstr c.tag ++ beBytes 8 tag ++ beBytes 1 0 ++
      putShortstr m.exchange ++ putShortstr m.routingKey, ?_⟩
    unfold deliverBytes deliverHead methodFrame
    dsimp only
    generalize (if frameOverhead < _ then _ else 4096) = chunk
    split <;> simp only [append_assoc] <;> exact ⟨_, rfl⟩
  obtain ⟨args, rest, hBytes⟩ := hHead
  rw [hBytes, isConfirm_methodFrame]
  rfl

theorem does_deliver (c : Consumer) (m : Msg) : (deliver c m).Does Act.Still := by
  refine does_act trivial fun tag => does_ask trivial fun frameMax => ?_
  refine does_act (isConfirm_deliverBytes c tag frameMax m) fun sent => ?_
  split
  · dsimp only
    split
    · exact does_act trivial fun _ => does_act trivial fun _ => trivial
    · exact does_act trivial fun _ => trivial
  · trivial

theorem does_serviceGroup (key : Bytes) (r : QRef) (fuel : Nat) :
    (serviceGroup key r fuel).Does Act.Still := by
  induction fuel with
  | zero => trivial
  | succ fuel ih =>
    refine does_act trivial fun picked => ?_
    cases picked with
    | none => trivial
    | some id =>
      refine does_ask trivial fun found => ?_
      cases found with
      | none => trivial
      | some c =>
        refine does_act trivial fun got => ?_
        cases got with
        | none => trivial
        | some m =>
          refine does_bind (does_deliver c m) fun sent => ?_
          split
          · exact does_act trivial fun _ => ih
          · exact does_last trivial

theorem does_onAsync (fuel : Nat) : (onAsync fuel).Does Act.Still := by
  refine does_act trivial fun list => does_forM fun q _ => does_ask trivial fun found => ?_
  cases found with
  | none => trivial
  | some g =>
    dsimp only
    split
    · trivial
    · exact does_serviceGroup q.key g.queue fuel

namespace Confirming

/-! ## Turns -/

inductive Turn
  /-- The first eight bytes, which are the greeting or not. -/
  | greeting (right : Bool)
  | frame (f : Frame)
  /-- Bytes that are no frame, or a frame that is too long. -/
  | badFrame
  | authDone
  | opTimer (i : Nat)
  | unblock
  | closed
  /-- `on_async` of the worker, which delivers to its connections. -/
  | deliver

def Turn.program (cfg : Cfg) (fuel : Nat) (p : Proto) : Turn → Proc Proto
  | .greeting true => sendConnectionStart cfg (p.advance .handshake)
  | .greeting false => do
    let _ ← act (.send p.conn protocolHeader)
    protoFatal cfg p
  | .frame f => if p.state = .closing then return p else dispatchFrame cfg fuel p f
  | .badFrame => protoFatal cfg p
  | .authDone => authWorkAfterCb cfg p
  | .opTimer i => pendingOpTimerCb cfg p i
  | .unblock => connUnblock cfg p
  | .closed => protocolConnFree p
  | .deliver => do
    onAsync fuel
    return p

/-! ## What a turn did -/

/-- The confirms that were written. A write that fails counts: it closes the connection. -/
def note (j : List Bytes) : (a : Act) → a.Ret → List Bytes
  | .send _ bytes, _ => if isConfirm bytes then j ++ [bytes] else j
  | _, _ => j

def journal (done : List (Sigma Act.Ret)) : List Bytes :=
  done.foldl (fun j x => note j x.1 x.2) []

/-- A turn, the actions it did with their answers, and the protocol state after it. -/
structure Taken where
  turn : Turn
  fuel : Nat
  done : List (Sigma Act.Ret)
  proto : Proto

/-! ## The book -/

/-- For each channel number, as long as that channel is open: the publishes completed in confirm
mode and the tags answered. `stray` are the confirms that answer no publish of an open channel. -/
structure Book where
  completed : Nat → Nat := fun _ => 0
  answered : Nat → List Nat := fun _ => []
  stray : List Bytes := []

/-- The frame brings the content of the publish to its end, whatever is then done with it: a
header that announces no body, or the last bytes of the body that was announced. -/
def contentEnds (p : Proto) (f : Frame) : Bool :=
  p.pubActive && f.channel = p.pubChannel &&
    if p.pubHaveHeader then
      f.type = frameBody && p.pubBodyReceived + f.payload.length = p.pubBodySize
    else f.type = frameHeader && (readContentHeader f.payload).any (·.1 = 0)

/-- The channel in confirm mode on which the turn completes a publish. After a fatal error the
frames are not read any more. -/
def completes (p : Proto) : Turn → Option Nat
  | .frame f =>
    if p.state ≠ .closing ∧ contentEnds p f ∧ (p.chanState p.pubChannel).any (·.1)
    then some p.pubChannel else none
  | _ => none

/-- The channel and tag that a confirm of the turn may answer: the publish that the frame
completes, or the wait that the timer polls, if its channel is open. -/
def due (p : Proto) : Turn → Option (Nat × Nat)
  | .frame _ =>
    if p.pubActive then
      (p.chanState p.pubChannel).bind fun (mode, seq) =>
        if mode then some (p.pubChannel, seq + 1) else none
    else none
  | .opTimer i =>
    p.pendingOps[i]?.bind fun op =>
      if op.kind = .publishConfirm && (p.chanState op.channel).isSome
      then some (op.channel, op.confirmTag) else none
  | _ => none

def Book.complete (b : Book) : Option Nat → Book
  | some ch => { b with completed := update b.completed ch (b.completed ch + 1) }
  | none => b

def Book.settle (b : Book) (ch tag : Nat) : Book :=
  { b with answered := update b.answered ch (b.answered ch ++ [tag]) }

theorem Book.settle_self (b : Book) (ch tag : Nat) :
    (b.settle ch tag).answered ch = b.answered ch ++ [tag] :=
  update_self ..

theorem Book.settle_of_ne {b : Book} {ch ch' tag : Nat} (hCh : ch' ≠ ch) :
    (b.settle ch tag).answered ch' = b.answered ch' :=
  update_of_ne hCh ..

def Book.answer (expected : Option (Nat × Nat)) (b : Book) (bytes : Bytes) : Book :=
  match expected with
  | some (ch, tag) =>
    if bytes = confirmFrame ch tag true ∨ bytes = confirmFrame ch tag false then b.settle ch tag
    else { b with stray := b.stray ++ [bytes] }
  | none => { b with stray := b.stray ++ [bytes] }

def Book.close (b : Book) (q : Proto) : Book where
  completed ch := if (q.chanState ch).isSome then b.completed ch else 0
  answered ch := if (q.chanState ch).isSome then b.answered ch else []
  stray := b.stray

def Book.enter (b : Book) (p : Proto) (x : Taken) : Book :=
  ((journal x.done).foldl (Book.answer (due p x.turn)) (b.complete (completes p x.turn))).close
    x.proto

/-- The connection, and the book that an observer keeps of it. -/
structure Desk where
  proto : Proto
  book : Book := {}

def Desk.step (s : Desk) (x : Taken) : Option Desk :=
  some { proto := x.proto, book := s.book.enter s.proto x }

def Desk.Can (cfg : Cfg) (s : Desk) (x : Taken) : Prop :=
  (x.turn.program cfg x.fuel s.proto).Returns x.done x.proto

def Desk.start (conn : Nat) : Desk := { proto := { conn } }

def waitingTags (p : Proto) (ch : Nat) : List Nat :=
  (p.confirmOps.filter fun op => op.channel = ch).map PendingOp.confirmTag

/-! ## The invariant -/

/-- A channel number and what is noted of it: nothing as long as it is closed; the tags answered
and the tags that wait are together the tags given out, each once. -/
def Page (state : Option (Bool × Nat)) (completed : Nat) (answered waiting : List Nat) : Prop :=
  match state with
  | none => completed = 0 ∧ answered = [] ∧ waiting = []
  | some (mode, seq) => completed = seq ∧ (mode = false → seq = 0) ∧
    (answered ++ waiting).Perm (List.range' 1 seq)

theorem Page.perm {state : Option (Bool × Nat)} {completed : Nat} {answered waiting : List Nat}
    (h : Page state completed answered waiting) {waiting' : List Nat}
    (hPerm : waiting'.Perm waiting) : Page state completed answered waiting' := by
  cases state with
  | none => exact ⟨h.1, h.2.1, perm_nil.mp (h.2.2 ▸ hPerm)⟩
  | some state => exact ⟨h.1, h.2.1, (hPerm.append_left _).trans h.2.2⟩

/-- The book agrees with the connection, channel by channel. -/
structure Book.Holds (b : Book) (p : Proto) : Prop where
  distinct : p.Distinct
  stray : b.stray = []
  page : ∀ ch, Page (p.chanState ch) (b.completed ch) (b.answered ch) (waitingTags p ch)

theorem holds_start (conn : Nat) : (Desk.start conn).book.Holds (Desk.start conn).proto where
  distinct := nodup_nil
  stray := rfl
  page _ := ⟨rfl, rfl, rfl⟩

namespace Book.Holds

variable {b b' : Book} {p q : Proto} {ch : Nat}

theorem distinct_updChannel (h : p.Distinct) (ch : Nat) {f : Chan → Chan}
    (hId : ∀ c, (f c).id = c.id) : (p.updChannel ch f).Distinct := by
  rw [Distinct, p.ids_updChannel ch hId]
  exact h

variable (h : b.Holds p)
include h

theorem page_none (hNone : p.chanState ch = none) :
    b.completed ch = 0 ∧ b.answered ch = [] ∧ waitingTags p ch = [] := by
  have hPage := h.page ch
  rwa [hNone] at hPage

theorem page_some {mode : Bool} {seq : Nat} (hSome : p.chanState ch = some (mode, seq)) :
    b.completed ch = seq ∧ (mode = false → seq = 0) ∧
      (b.answered ch ++ waitingTags p ch).Perm (List.range' 1 seq) := by
  have hPage := h.page ch
  rwa [hSome] at hPage

theorem tags (hOpen : (p.chanState ch).isSome) :
    (b.answered ch ++ waitingTags p ch).Perm (List.range' 1 (b.completed ch)) := by
  obtain ⟨⟨mode, seq⟩, hSome⟩ := Option.isSome_iff_exists.mp hOpen
  rw [(h.page_some hSome).1]
  exact (h.page_some hSome).2.2

theorem waits {op : PendingOp} (hMem : op ∈ p.confirmOps) : (p.chanState op.channel).isSome := by
  by_contra hClosed
  have hNone := (h.page_none (Option.not_isSome_iff_eq_none.mp hClosed)).2.2
  rw [waitingTags, map_eq_nil_iff, filter_eq_nil_iff] at hNone
  exact hNone op hMem (decide_eq_true rfl)

/-- Closed channels leave the book with all they wait for. -/
theorem drops (hDrops : p.Drops q) : (b.close q).Holds q := by
  obtain ⟨hDistinct, keep, hChan, hOps⟩ := hDrops h.distinct
  refine ⟨hDistinct, h.stray, fun ch => ?_⟩
  have hWaits : waitingTags q ch = if keep ch then waitingTags p ch else [] := by
    rw [waitingTags, hOps, filter_filter, waitingTags]
    split
    · next hKeep =>
      refine congrArg _ (filter_congr fun op _ => ?_)
      by_cases hCh : op.channel = ch
      · simp [hCh, hKeep]
      · simp [hCh]
    · next hKeep =>
      rw [map_eq_nil_iff, filter_eq_nil_iff]
      rintro op - hBoth
      simp only [Bool.and_eq_true, decide_eq_true_eq] at hBoth
      exact hKeep (hBoth.1 ▸ hBoth.2)
  have hState := hChan ch
  rw [hWaits]
  cases hKeep : keep ch with
  | true =>
    rw [hKeep, if_pos rfl] at hState
    rw [if_pos rfl]
    cases hOld : p.chanState ch with
    | none => simpa [Book.close, hState, hOld, Page] using (h.page_none hOld).2.2
    | some state => simpa [Book.close, hState, hOld] using h.page ch
  | false =>
    rw [hKeep, if_neg Bool.false_ne_true] at hState
    simp [Book.close, hState, Page]

/-- What happens on one channel leaves the pages of the others alone. -/
theorem turned (ch : Nat) (hDistinct : q.Distinct) (hStray : b'.stray = [])
    (hOther : ∀ ch', ch' ≠ ch → q.chanState ch' = p.chanState ch' ∧
      b'.completed ch' = b.completed ch' ∧ b'.answered ch' = b.answered ch' ∧
      (waitingTags q ch').Perm (waitingTags p ch'))
    (hPage : Page (q.chanState ch) (b'.completed ch) (b'.answered ch) (waitingTags q ch)) :
    b'.Holds q := by
  refine ⟨hDistinct, hStray, fun ch' => ?_⟩
  by_cases hCh : ch' = ch
  · rw [hCh]
    exact hPage
  · obtain ⟨hState, hCompleted, hAnswered, hWaits⟩ := hOther ch' hCh
    rw [hState, hCompleted, hAnswered]
    exact (h.page ch').perm hWaits

theorem opened (hNone : p.channelFind ch = none) :
    b.Holds { p with channels := p.channels ++ [{ id := ch }] } := by
  -- the number was free, so nothing is left of an earlier channel
  have hState : p.chanState ch = none := by rw [chanState, hNone]; rfl
  obtain ⟨hCompleted, hAnswered, hWaits⟩ := h.page_none hState
  have hFree : ∀ c ∈ p.channels, c.id ≠ ch := by
    simpa [channelFind] using hNone
  refine h.turned ch ?_ h.stray (fun ch' hCh => ⟨?_, rfl, rfl, .refl _⟩) ?_
  · rw [Distinct, map_append, nodup_append]
    refine ⟨h.distinct, by simp, ?_⟩
    simpa using hFree
  · simp [chanState, channelFind, find?_append, Ne.symm hCh]
  · have hState : chanState { p with channels := p.channels ++ [{ id := ch }] } ch =
        some (false, 0) := by
      rw [channelFind] at hNone
      simp [chanState, channelFind, find?_append, hNone]
    rw [hState, hCompleted, hAnswered]
    exact ⟨rfl, fun _ => rfl, .of_eq hWaits⟩

theorem selected (ch : Nat) :
    b.Holds (p.updChannel ch fun c => { c with confirmMode := true }) := by
  have hView : ∀ ch', chanState (p.updChannel ch fun c => { c with confirmMode := true }) ch' =
      (p.chanState ch').map fun x => (if ch' = ch then true else x.1, x.2) := by
    intro ch'
    rw [chanState, channelFind_updChannel p (f := fun c => { c with confirmMode := true })
      (fun _ => rfl), chanState, Option.map_map, Option.map_map]
    refine Option.map_congr fun c _ => ?_
    simp only [Function.comp_apply]
    split <;> rfl
  refine h.turned ch (distinct_updChannel h.distinct ch fun _ => rfl) h.stray
    (fun ch' hCh => ⟨by simp [hView, hCh], rfl, rfl, .refl _⟩) ?_
  rw [hView]
  have hPage := h.page ch
  cases hState : p.chanState ch with
  | none =>
    rw [hState] at hPage
    exact hPage
  | some state =>
    rw [hState] at hPage
    exact ⟨hPage.1, by simp, hPage.2.2⟩

/-- A publish is completed on a channel in confirm mode: it has the next tag, which is answered
or waits. -/
theorem assigned {seq : Nat} (hMode : p.chanState ch = some (true, seq)) (hDistinct : q.Distinct)
    (hView : ∀ ch', q.chanState ch' = if ch' = ch then some (true, seq + 1) else p.chanState ch')
    (hStray : b'.stray = []) (hCompleted : b'.completed = update b.completed ch (seq + 1))
    (hOther : ∀ ch', ch' ≠ ch →
      b'.answered ch' = b.answered ch' ∧ (waitingTags q ch').Perm (waitingTags p ch'))
    (hTags : (b'.answered ch ++ waitingTags q ch).Perm
      ((b.answered ch ++ waitingTags p ch) ++ [seq + 1])) : b'.Holds q := by
  refine h.turned ch hDistinct hStray (fun ch' hCh => ⟨?_, ?_, hOther ch' hCh⟩) ?_
  · rw [hView, if_neg hCh]
  · rw [hCompleted, update_of_ne hCh]
  · rw [hView, if_pos rfl, hCompleted, update_self]
    refine ⟨rfl, nofun, ?_⟩
    rw [range'_1_concat, Nat.add_comm 1 seq]
    exact hTags.trans ((h.page_some hMode).2.2.append_right _)

theorem polled {op : PendingOp}
    (hDistinct : q.Distinct) (hView : ∀ ch, q.chanState ch = p.chanState ch)
    (hOps : p.confirmOps.Perm (op :: q.confirmOps)) :
    (b.settle op.channel op.confirmTag).Holds q := by
  have hWaiting : ∀ ch, (waitingTags p ch).Perm
      (if op.channel = ch then op.confirmTag :: waitingTags q ch else waitingTags q ch) := by
    intro ch
    refine ((hOps.filter _).map _).trans ?_
    by_cases hCh : op.channel = ch
    · rw [filter_cons_of_pos (by simpa using hCh), if_pos hCh]
      exact .refl _
    · rw [filter_cons_of_neg (by simpa using hCh), if_neg hCh]
      exact .refl _
  refine h.turned op.channel hDistinct h.stray
    (fun ch hCh => ⟨hView ch, rfl, settle_of_ne hCh, ?_⟩) ?_
  · have hSame := hWaiting ch
    rw [if_neg (Ne.symm hCh)] at hSame
    exact hSame.symm
  · obtain ⟨⟨mode, seq⟩, hState⟩ := Option.isSome_iff_exists.mp
      (h.waits (hOps.mem_iff.mpr mem_cons_self))
    obtain ⟨hCompleted, hMode, hTags⟩ := h.page_some hState
    have hPerm := hWaiting op.channel
    rw [if_pos rfl] at hPerm
    rw [hView, hState, settle_self]
    refine ⟨hCompleted, hMode, List.Perm.trans ?_ hTags⟩
    rw [append_assoc]
    exact hPerm.symm.append_left _

end Book.Holds

/-! ## Programs and their journals -/

def journaling : Protocol Act Act.Ret (List Bytes) where
  may _ _ := True
  yields _ _ _ := True
  next := note

theorem expects_journaling (j : List Bytes) (done : List (Sigma Act.Ret)) :
    journaling.Expects j done := by
  induction done generalizing j with
  | nil => trivial
  | cons x done ih => exact ⟨trivial, ih _⟩

theorem journal_of_returns {prog : Proc Proto} {Q : Proto → List Bytes → Prop}
    {done : List (Sigma Act.Ret)} {q : Proto} (h : journaling.Obeys prog [] Q)
    (hReturns : prog.Returns done q) : Q q (journal done) :=
  h.of_returns hReturns (expects_journaling [] done)

theorem note_of_still {a : Act} (ha : a.Still) (j : List Bytes) (r : a.Ret) : note j a r = j := by
  cases a with
  | send c bytes =>
    have hNo : isConfirm bytes = false := ha
    simp [note, hNo]
  | _ => rfl

theorem obeys_still {α : Type} {prog : Proc α} (h : prog.Does Act.Still) (j : List Bytes) :
    journaling.Obeys prog j fun _ j' => j' = j :=
  Protocol.obeys_of_does (I := fun j' => j' = j) h
    (fun j' _ hj ha => ⟨trivial, fun r _ => (note_of_still ha j' r).trans hj⟩) rfl

theorem obeys_routing {α : Type} {prog : Proc α} (h : prog.Does Act.Routing) {p q : Proto}
    {j j' : List Bytes} (hInv : p.Drops q ∧ j' = j) :
    journaling.Obeys prog j' fun _ j' => p.Drops q ∧ j' = j := by
  refine (obeys_still (h.mono fun _ h => h.still) j').mono ?_
  rintro _ _ rfl
  exact hInv

open Conduct Discipline

/-- Whatever the checks say, no confirm is sent and at most channels are closed. -/
def unconfirmed (cfg : Cfg) (p : Proto) (j : List Bytes) : Discipline cfg journaling where
  Inv q j' := p.Drops q ∧ j' = j
  Has _ _ := True
  follows hFollows hInv := ⟨hInv.1.trans hFollows.drops, hInv.2⟩
  acts ha hInv _ :=
    ⟨trivial, fun r _ => ⟨⟨hInv.1, (note_of_still ha.still _ r).trans hInv.2⟩, fun _ _ _ => trivial⟩⟩
  parts := trivial
  lasts _ _ _ := trivial
  idle _ _ := trivial
  found _ := trivial
  mine _ _ := trivial
  takes _ _ := trivial
  tracks hInv _ := by
    refine ⟨hInv.1.trans ?_, hInv.2⟩
    unfold trackExclusive
    split <;> exact .of_same rfl rfl
  owns _ _ := trivial
  perm _ _ hInv _ := by
    unfold permOk
    split
    · exact ⟨trivial, fun _ _ => ⟨hInv, fun _ => trivial, fun _ _ => trivial⟩⟩
    · exact ⟨hInv, fun _ => trivial, fun _ _ => trivial⟩
  anybody _ _ _ hInv := ⟨hInv.1.trans (.of_same rfl rfl), hInv.2⟩
  lookupHash _ _ hInv _ := ⟨trivial, fun _ _ => ⟨hInv.1.trans (.of_same rfl rfl), hInv.2⟩⟩
  passwordMatches hInv _ _ := ⟨trivial, fun _ _ => ⟨hInv.1.trans (.of_same rfl rfl), hInv.2⟩⟩
  forget hInv := ⟨hInv.1.trans (.of_same rfl rfl), hInv.2⟩
  canAccessVhost _ hInv := by
    refine ⟨trivial, fun access _ => ?_⟩
    cases access with
    | true => exact ⟨hInv.1.trans (.of_same rfl rfl), hInv.2⟩
    | false => exact hInv
  routes {q j v m} fuel hInv _ := obeys_routing (does_route fuel v m) hInv
  letter fuel r m hInv :=
    obeys_routing (does_deadLetter r m trivial fun v m => does_route fuel v m) hInv

theorem obeys_unconfirmed (cfg : Cfg) {prog : Proc Proto} {p : Proto} {j : List Bytes}
    (h : (unconfirmed cfg p j).Keeps [] prog p) :
    journaling.Obeys prog j fun q j' => p.Drops q ∧ j' = j :=
  h.run ⟨.refl p, rfl⟩

/-! ## A publish is completed -/

/-- The last tag of the channel of the publish, if it is in confirm mode. -/
def lastTag (p : Proto) : Option Nat :=
  (p.chanState p.pubChannel).bind fun (mode, seq) => if mode then some seq else none

def nextTag (p : Proto) : Proto :=
  p.updChannel p.pubChannel fun c => { c with confirmSeq := c.confirmSeq + 1 }

/-- How a content frame ends. `ends` says that it completes the publish. -/
inductive Ended (ends : Bool) (p q : Proto) (confirms : List Bytes) : Prop
  /-- No publish is completed, or the channel is not in confirm mode. -/
  | plain (hTag : ends = true → lastTag p = none) (hNone : confirms = []) (hDrops : p.Drops q)
  /-- The publish is refused, and its channel is closed. -/
  | refused (hNone : confirms = []) (hClosed : p.Distinct → q.chanState p.pubChannel = none)
      (hDrops : p.Drops q)
  /-- The tag waits for the cluster. -/
  | waits {seq : Nat} {op : PendingOp} (hTag : lastTag p = some seq) (hEnds : ends = true)
      (hNone : confirms = []) (hKind : op.kind = .publishConfirm)
      (hChannel : op.channel = p.pubChannel) (hOp : op.confirmTag = seq + 1)
      (hDrops : Drops { nextTag p with pendingOps := op :: p.pendingOps } q)
  | answered {seq : Nat} {nack : Bool} (hTag : lastTag p = some seq) (hEnds : ends = true)
      (hOne : confirms = [confirmFrame p.pubChannel (seq + 1) nack])
      (hDrops : (nextTag p).Drops q)

theorem Ended.trans {ends : Bool} {p q r : Proto} {confirms : List Bytes}
    (h : Ended ends p q confirms) (hDrops : q.Drops r) : Ended ends p r confirms := by
  cases h with
  | plain hTag hNone hDrops' => exact .plain hTag hNone (hDrops'.trans hDrops)
  | refused hNone hClosed hDrops' =>
    refine .refused hNone (fun hDistinct => ?_) (hDrops'.trans hDrops)
    -- a channel that is closed is not opened again by what drops channels
    obtain ⟨-, keep, hChan, -⟩ := hDrops (hDrops' hDistinct).1
    rw [hChan, hClosed hDistinct, ite_self]
  | waits hTag hEnds hNone hKind hChannel hOp hDrops' =>
    exact .waits hTag hEnds hNone hKind hChannel hOp (hDrops'.trans hDrops)
  | answered hTag hEnds hOne hDrops' => exact .answered hTag hEnds hOne (hDrops'.trans hDrops)

theorem Ended.after {ends : Bool} {p p' q : Proto} {confirms : List Bytes}
    (h : Ended ends p' q confirms) (hChan : p'.channels = p.channels)
    (hOps : p'.pendingOps = p.pendingOps) (hPub : p'.pubChannel = p.pubChannel) :
    Ended ends p q confirms := by
  have hTag : lastTag p' = lastTag p := by
    rw [lastTag, lastTag, hPub, chanState, chanState, channelFind,
      channelFind, hChan]
  have hNext : (nextTag p').channels = (nextTag p).channels := by
    rw [nextTag, nextTag, hPub, updChannel, updChannel, hChan]
  cases h with
  | plain hNo hNone hDrops =>
    exact .plain (fun h => hTag ▸ hNo h) hNone ((Drops.of_same hChan hOps).trans hDrops)
  | refused hNone hClosed hDrops =>
    refine .refused hNone ?_ ((Drops.of_same hChan hOps).trans hDrops)
    rw [← hPub, Distinct, ← hChan]
    exact hClosed
  | @waits seq op hSome hEnds hNone hKind hChannel hOp hDrops =>
    refine .waits (hTag ▸ hSome) hEnds hNone hKind (hPub ▸ hChannel) hOp ?_
    have hPending : op :: p'.pendingOps = op :: p.pendingOps := by rw [hOps]
    exact Drops.trans (q := { nextTag p' with pendingOps := op :: p'.pendingOps })
      (.of_same hNext hPending) hDrops
  | answered hSome hEnds hOne hDrops =>
    refine .answered (hTag ▸ hSome) hEnds (hPub ▸ hOne) ?_
    exact (Drops.of_same hNext hOps).trans hDrops

theorem filter_confirmMode (p : Proto) :
    ((p.channelFind p.pubChannel).filter fun c => c.confirmMode).map Chan.confirmSeq =
      lastTag p := by
  rw [lastTag, chanState]
  cases p.channelFind p.pubChannel with
  | none => rfl
  | some c =>
    cases hMode : c.confirmMode with
    | true | false => simp [hMode]

/-- The replicated part: the message is refused and nothing happened, or it was taken. -/
theorem obeys_publishReplicated (p : Proto) (body : Bytes) :
    journaling.Obeys (publishReplicated p body) [] fun r j =>
      if r.1 then Ended true p r.2 j else r.2 = p ∧ j = [] := by
  unfold publishReplicated
  refine obeys_act trivial fun seq _ => ?_
  split
  · exact ⟨rfl, rfl⟩
  have hEnd : ∀ q : Proto, Ended true p q [] →
      journaling.Obeys (do
        let congested ← ask .shouldThrottle
        if congested then act (.throttleRead q.conn)
        return (true, q) : Proc (Bool × Proto)) [] fun r j =>
          if r.1 then Ended true p r.2 j else r.2 = p ∧ j = [] := by
    intro q hEnded
    refine obeys_ask trivial fun congested _ => ?_
    dsimp only
    split
    · exact obeys_act trivial fun _ _ => hEnded
    · exact hEnded
  have hTag := filter_confirmMode p
  dsimp only
  split
  · rename_i hNone
    rw [hNone] at hTag
    exact hEnd p (.plain (fun _ => hTag.symm) rfl (.refl p))
  rename_i c hSome
  rw [hSome] at hTag
  refine obeys_ask trivial fun now _ => hEnd _ ?_
  exact .waits hTag.symm rfl rfl rfl rfl rfl (.refl _)

theorem obeys_sendPublishConfirm {cfg : Cfg} (p : Proto) (ch tag : Nat) (nack : Bool) :
    journaling.Obeys (sendPublishConfirm cfg p ch tag nack) [] fun q j =>
      (q.channels = p.channels ∧ q.pendingOps = p.pendingOps) ∧ j = [confirmFrame ch tag nack] := by
  have hNote : ∀ sent, journaling.next [] (.send p.conn (confirmFrame ch tag nack)) sent =
      [confirmFrame ch tag nack] :=
    fun _ => if_pos (isConfirm_confirmFrame ch tag nack)
  refine obeys_act trivial fun sent _ => ?_
  have hNote' := hNote sent
  rw [confirmFrame] at hNote' ⊢
  rw [hNote']
  split
  · exact ⟨⟨rfl, rfl⟩, rfl⟩
  refine Protocol.Obeys.and_ends ((obeys_unconfirmed cfg (keeps_protoFatal p)).mono fun _ _ h => h.2) ?_
  unfold protoFatal protoClose
  split
  · exact ⟨rfl, rfl⟩
  · exact ends_bind fun _ => ⟨rfl, rfl⟩

theorem obeys_publishLocal {cfg : Cfg} (fuel : Nat) (p : Proto) (body : Bytes) :
    journaling.Obeys (publishLocal cfg fuel p body) [] fun q j => Ended true p q j := by
  unfold publishLocal
  refine (obeys_still ((does_route fuel p.vhost _).mono fun _ h => h.still) []).bind ?_
  rintro routed _ rfl
  -- what went nowhere is returned, which changes nothing here
  have hReturn : ∀ q j, Ended true p q j → journaling.Obeys (if q.pubMandatory && routed = 0
      then sendBasicReturn cfg q ((p.publish body).message 0) else pure q) j
        fun q j => Ended true p q j := by
    intro q j hEnded
    split
    · refine (obeys_unconfirmed cfg (keeps_sendBasicReturn q _)).mono ?_
      rintro r _ ⟨hDrops, rfl⟩
      exact hEnded.trans hDrops
    · exact hEnded
  have hTag := filter_confirmMode p
  dsimp only
  split
  · rename_i hNone
    rw [hNone] at hTag
    exact hReturn p _ (.plain (fun _ => hTag.symm) rfl (.refl p))
  rename_i c hSome
  rw [hSome] at hTag
  refine (obeys_sendPublishConfirm _ _ _ _).bind ?_
  rintro q _ ⟨⟨hChan, hOps⟩, rfl⟩
  exact hReturn q _ (.answered hTag.symm rfl rfl (.of_same hChan hOps))

/-- A publish completed in confirm mode is given the next tag, which is answered at once or
waits for the cluster; or it is refused, and its channel is closed. -/
theorem obeys_finalizePublish {cfg : Cfg} (fuel : Nat) (p : Proto) (body : Bytes) :
    journaling.Obeys (finalizePublish cfg fuel p body) [] fun q j => Ended true p q j := by
  have hReset : ∀ q : Proto, q.Drops q.publishReset := fun q => .of_same rfl rfl
  have hClose : ∀ code text, journaling.Obeys (do
      let q ← sendChannelClose cfg p p.pubChannel code text classBasic basicPublish
      return q.publishReset) [] fun q j => Ended true p q j := by
    intro code text
    have hGone : (sendChannelClose cfg p p.pubChannel code text classBasic basicPublish).Ends
        fun q => p.Distinct → q.chanState p.pubChannel = none := by
      refine (ends_sendChannelClose p _ _ _ _ _).mono ?_
      intro q hq hDistinct
      rw [chanState, (hq hDistinct).1]
      rfl
    refine ((obeys_unconfirmed cfg (keeps_sendChannelClose ..)).and_ends hGone).bind ?_
    rintro q _ ⟨hClosed, hDrops, rfl⟩
    exact .refused rfl hClosed (hDrops.trans (hReset q))
  have hDone : ∀ q j, Ended true p q j →
      journaling.Obeys (publishDone cfg q) j fun q j => Ended true p q j := by
    intro q j hEnded
    refine (obeys_unconfirmed cfg (keeps_publishDone q)).mono ?_
    rintro r _ ⟨hDrops, rfl⟩
    exact hEnded.trans hDrops
  unfold finalizePublish
  refine (obeys_still (does_permOk p .write p.pubExchange) []).bind ?_
  rintro ok _ rfl
  split
  · exact hClose ..
  split
  · refine (obeys_publishReplicated p body).bind ?_
    rintro ⟨replicated, q⟩ j hTaken
    cases replicated with
    | true => exact hDone q j hTaken
    | false =>
      obtain ⟨rfl, rfl⟩ := hTaken
      exact hClose ..
  · exact (obeys_publishLocal fuel p body).bind hDone

/-! ## Frames -/

variable {cfg : Cfg} {p q : Proto}

/-- A frame that is not content of the publish, or not the end of it, completes nothing. -/
theorem obeys_unfinished (cfg : Cfg) {prog : Proc Proto} (h : (unconfirmed cfg p []).Keeps [] prog p)
    {ends : Bool} (hEnds : ends = false) :
    journaling.Obeys prog [] fun q j => Ended ends p q j := by
  refine (obeys_unconfirmed cfg h).mono ?_
  rintro q _ ⟨hDrops, rfl⟩
  exact .plain (fun h => absurd (hEnds.symm.trans h) Bool.false_ne_true) rfl hDrops

theorem obeys_contentHeader (fuel : Nat) (hActive : p.pubActive = true)
    (hHeader : p.pubHaveHeader = false) (f : Frame) (hType : f.type = frameHeader) :
    journaling.Obeys (handleContentHeader cfg fuel p f) [] fun q j =>
      Ended (contentEnds p f) p q j := by
  unfold handleContentHeader
  split
  · rename_i hChannel
    exact obeys_unfinished cfg (keeps_protoFatal p) (by simp [contentEnds, hChannel])
  rename_i hChannel
  split
  · rename_i hRead
    exact obeys_unfinished cfg (keeps_protoFatal p) (by simp [contentEnds, hHeader, hRead])
  rename_i size props hRead
  have hEnds : contentEnds p f = decide (size = 0) := by
    simp [contentEnds, hActive, not_not.mp hChannel, hHeader, hType, hRead]
  rw [hEnds]
  split
  · rename_i hLong
    refine obeys_unfinished cfg (keeps_protoFatal p) (decide_eq_false ?_)
    omega
  dsimp only
  split
  · rename_i hZero
    rw [decide_eq_true hZero]
    exact (obeys_finalizePublish fuel _ _).mono fun _ _ hEnded => hEnded.after rfl rfl rfl
  · rename_i hMore
    exact .plain (fun h => absurd (of_decide_eq_true h) hMore) rfl (.of_same rfl rfl)

theorem obeys_contentBody (fuel : Nat) (hActive : p.pubActive = true)
    (hHeader : p.pubHaveHeader = true) (f : Frame) (hType : f.type = frameBody) :
    journaling.Obeys (handleContentBody cfg fuel p f) [] fun q j =>
      Ended (contentEnds p f) p q j := by
  unfold handleContentBody
  split
  · rename_i hChannel
    exact obeys_unfinished cfg (keeps_protoFatal p) (by simp [contentEnds, hChannel])
  rename_i hChannel
  have hEnds : contentEnds p f =
      decide (p.pubBodyReceived + f.payload.length = p.pubBodySize) := by
    simp [contentEnds, hActive, not_not.mp hChannel, hHeader, hType]
  rw [hEnds]
  split
  · rename_i hLong
    exact obeys_unfinished cfg (keeps_protoFatal p) (decide_eq_false hLong.ne')
  split
  · -- the whole body in one frame
    rename_i hWhole
    simp only [Bool.and_eq_true, Option.isNone_iff_eq_none, decide_eq_true_eq] at hWhole
    have hSum : p.pubBodyReceived + f.payload.length = p.pubBodySize := by
      rw [pubBodyReceived, hWhole.1, hWhole.2]
      exact Nat.zero_add _
    rw [decide_eq_true hSum]
    exact obeys_finalizePublish fuel p _
  have hLength : (p.pubBody.getD [] ++ f.payload).length =
      p.pubBodyReceived + f.payload.length := by
    rw [length_append, pubBodyReceived]
    cases p.pubBody with
    | none | some body => rfl
  dsimp only
  rw [hLength]
  split
  · rename_i hSum
    rw [decide_eq_true hSum]
    exact (obeys_finalizePublish fuel _ _).mono fun _ _ hEnded => hEnded.after rfl rfl rfl
  · rename_i hMore
    exact .plain (fun h => absurd (of_decide_eq_true h) hMore) rfl (.of_same rfl rfl)

theorem obeys_contentFrame (fuel : Nat) (hActive : p.pubActive = true) (f : Frame) :
    journaling.Obeys (dispatchFrame cfg fuel p f) [] fun q j =>
      Ended (contentEnds p f) p q j := by
  unfold dispatchFrame
  rw [if_pos hActive]
  cases hHeader : p.pubHaveHeader with
  | false =>
    rw [if_pos (by rfl)]
    split
    · rename_i hType
      exact obeys_unfinished cfg (keeps_protoFatal p) (by simp [contentEnds, hHeader, hType])
    · rename_i hType
      exact obeys_contentHeader fuel hActive hHeader f (not_not.mp hType)
  | true =>
    rw [if_neg (by simp)]
    split
    · rename_i hType
      exact obeys_unfinished cfg (keeps_protoFatal p) (by simp [contentEnds, hHeader, hType])
    · rename_i hType
      exact obeys_contentBody fuel hActive hHeader f (not_not.mp hType)

/-- What a turn without content leaves of the connection. -/
inductive Managed (p q : Proto) (confirms : List Bytes) : Prop
  | tame (hNone : confirms = []) (hDrops : p.Drops q)
  | opened {ch : Nat} (hNone : confirms = []) (hFree : p.channelFind ch = none)
      (hDrops : Drops { p with channels := p.channels ++ [{ id := ch }] } q)
  | selected {ch : Nat} (hNone : confirms = [])
      (hDrops : (p.updChannel ch fun c => { c with confirmMode := true }).Drops q)

theorem managed_of_keeps (cfg : Cfg) {prog : Proc Proto}
    (h : (unconfirmed cfg p []).Keeps [] prog p) :
    journaling.Obeys prog [] fun q j => Managed p q j :=
  (obeys_unconfirmed cfg h).mono fun _ _ h => .tame h.2 h.1

theorem managed_fatal (p : Proto) : journaling.Obeys (protoFatal cfg p) [] fun q j => Managed p q j :=
  managed_of_keeps cfg (keeps_protoFatal p)

theorem obeys_handleChannel (p : Proto) (ch method : Nat) :
    journaling.Obeys (handleChannel cfg p ch method) [] fun q j => Managed p q j := by
  unfold handleChannel withOpen
  split
  · split
    · split
      · exact managed_fatal p
      · rename_i hChecks
        have hFree : p.channelFind ch = none := by
          simpa using fun hSome => hChecks (.inr (.inr hSome))
        dsimp only
        refine (obeys_unconfirmed cfg
          (Keeps.after (.advance _ .channelOpen) (keeps_sendMethod _ _ _ rfl))).mono ?_
        rintro q _ ⟨hDrops, rfl⟩
        exact .opened rfl hFree hDrops
    · split
      · exact managed_of_keeps cfg ((keeps_channelTeardown p ch).bind fun q =>
          keeps_sendMethod q _ _ rfl)
      · split
        · exact Managed.tame rfl (.refl p)
        · exact managed_fatal p
  · exact managed_fatal p

theorem obeys_handleConfirm (p : Proto) (ch method : Nat) (r : Bytes) :
    journaling.Obeys (handleConfirm cfg p ch method r) [] fun q j => Managed p q j := by
  unfold handleConfirm withChannel withOpen
  split
  · split
    · exact managed_fatal p
    · split
      · exact managed_fatal p
      · split
        · exact managed_fatal p
        · refine (obeys_unconfirmed cfg (keeps_answer _ _ _ rfl)).mono ?_
          rintro q _ ⟨hDrops, rfl⟩
          exact .selected rfl hDrops
  · exact managed_fatal p

/-- The other frames: of the method frames only `Channel.Open` and `Confirm.Select` are not
tame. -/
theorem obeys_methodFrame (fuel : Nat) (hActive : p.pubActive = false)
    (hOpen : p.state ≠ .closing) (f : Frame) :
    journaling.Obeys (dispatchFrame cfg fuel p f) [] fun q j => Managed p q j := by
  unfold dispatchFrame
  rw [hActive, if_neg Bool.false_ne_true]
  split
  · unfold handleMethod
    split
    · exact managed_fatal p
    split
    · exact managed_fatal p
    split
    · exact managed_of_keeps cfg (keeps_handleConnection ..)
    split
    · exact obeys_handleChannel ..
    split
    · exact managed_of_keeps cfg (keeps_handleExchange hOpen ..)
    split
    · exact managed_of_keeps cfg (keeps_handleQueue hOpen ..)
    split
    · exact managed_of_keeps cfg (keeps_handleBasic hOpen ..)
    split
    · exact obeys_handleConfirm ..
    · exact managed_fatal p
  · split
    · exact Managed.tame rfl (.refl p)
    · exact managed_fatal p

/-! ## Polls -/

/-- The poll of a publish: it waits on while the cluster has not decided and there is time, and
otherwise its tag is answered. -/
theorem poll_of_returns {i : Nat} {op : PendingOp} (hOp : p.pendingOps[i]? = some op)
    (hKind : op.kind = .publishConfirm) {done : List (Sigma Act.Ret)}
    (hReturns : (pendingOpTimerCb cfg p i).Returns done q) :
    ∃ (status : ProposalStatus) (now : Nat) (rest : List (Sigma Act.Ret)),
      done = ⟨.ask (.proposalStatus op.seq), status⟩ :: ⟨.ask .now, now⟩ :: rest ∧
      if status = .pending ∧ now < op.deadline then journal done = [] ∧ q = p
      else journal done =
          [confirmFrame op.channel op.confirmTag (decide (status ≠ .committed))] ∧
        q.channels = p.channels ∧ q.pendingOps = p.pendingOps.eraseIdx i := by
  unfold pendingOpTimerCb at hReturns
  rw [hOp] at hReturns
  obtain ⟨status, _, rfl, hPolled⟩ := returns_call_bind hReturns
  obtain ⟨now, rest, rfl, hLast⟩ := returns_call_bind hPolled
  refine ⟨status, now, rest, rfl, ?_⟩
  by_cases hWaits : status = .pending ∧ now < op.deadline
  · rw [if_pos hWaits] at hLast ⊢
    cases rest with
    | nil => exact ⟨rfl, hLast⟩
    | cons _ _ => cases hLast
  rw [if_neg hWaits] at hLast ⊢
  dsimp only at hLast
  rw [if_pos hKind] at hLast
  -- the two reads are not in the journal
  have hJournal := journal_of_returns (obeys_sendPublishConfirm _ _ _ _) hLast
  exact ⟨hJournal.2, hJournal.1⟩

/-! ## Turns keep the invariant -/

theorem chanState_of_lastTag {seq : Nat} (hTag : lastTag p = some seq) :
    p.chanState p.pubChannel = some (true, seq) := by
  obtain ⟨⟨mode, seq'⟩, hState, hMode⟩ := Option.bind_eq_some_iff.mp hTag
  cases mode with
  | true =>
    cases hMode
    exact hState
  | false => cases hMode

theorem chanState_nextTag {seq : Nat} (hTag : lastTag p = some seq) (ch : Nat) :
    (nextTag p).chanState ch = if ch = p.pubChannel then some (true, seq + 1) else p.chanState ch := by
  have hState := chanState_of_lastTag hTag
  rw [chanState, nextTag, channelFind_updChannel p
    (f := fun c => { c with confirmSeq := c.confirmSeq + 1 }) (fun _ => rfl), Option.map_map]
  by_cases hCh : ch = p.pubChannel
  · subst hCh
    rw [if_pos rfl]
    obtain ⟨c, hFind, hView⟩ := Option.map_eq_some_iff.mp hState
    rw [hFind]
    obtain ⟨hMode, rfl⟩ := Prod.mk.inj hView
    simp [hMode]
  · simp only [hCh, if_false]
    rfl

theorem distinct_nextTag (hDistinct : p.Distinct) : (nextTag p).Distinct :=
  Book.Holds.distinct_updChannel hDistinct _ fun _ => rfl

variable {b : Book} {x : Taken}

theorem holds_quiet (h : b.Holds p) (hCompletes : completes p x.turn = none)
    (hNone : journal x.done = []) {p' : Proto} (h' : b.Holds p → b.Holds p')
    (hDrops : p'.Drops x.proto) : (b.enter p x).Holds x.proto := by
  rw [Book.enter, hCompletes, hNone]
  exact (h' h).drops hDrops

theorem completes_frame {f : Frame} (hReading : p.state ≠ .closing) {seq : Nat}
    (hTag : lastTag p = some seq) (hEnds : contentEnds p f = true) :
    completes p (.frame f) = some p.pubChannel := by
  simp [completes, hReading, hEnds, chanState_of_lastTag hTag]

theorem completes_eq_none {f : Frame} (hTag : contentEnds p f = true → lastTag p = none) :
    completes p (.frame f) = none := by
  refine if_neg ?_
  rintro ⟨-, hEnds, hMode⟩
  have hNoTag := hTag hEnds
  rw [lastTag] at hNoTag
  rcases hState : p.chanState p.pubChannel with _ | ⟨mode, seq⟩
  · simp [hState] at hMode
  · rw [hState] at hMode hNoTag
    cases mode with
    | true => cases hNoTag
    | false => cases hMode

/-- What is noted of a channel is forgotten when it is closed. -/
theorem Book.close_complete {b : Book} {ch : Nat} (hClosed : q.chanState ch = none) :
    (b.complete (some ch)).close q = b.close q := by
  have hCompleted : ∀ ch', ((b.complete (some ch)).close q).completed ch' =
      (b.close q).completed ch' := by
    intro ch'
    by_cases hCh : ch' = ch
    · subst hCh
      simp [Book.close, hClosed]
    · simp [Book.close, Book.complete, update_of_ne hCh]
  rw [Book.close, Book.close, Book.mk.injEq]
  exact ⟨funext hCompleted, rfl, rfl⟩

/-- A content frame: the last one completes a publish, and is answered at once or waits. -/
theorem holds_ended (h : b.Holds p) {f : Frame} (hTurn : x.turn = .frame f)
    (hActive : p.pubActive = true) (hReading : p.state ≠ .closing)
    (hEnded : Ended (contentEnds p f) p x.proto (journal x.done)) :
    (b.enter p x).Holds x.proto := by
  cases hEnded with
  | plain hTag hNone hDrops =>
    refine holds_quiet h ?_ hNone id hDrops
    rw [hTurn]
    exact completes_eq_none hTag
  | refused hNone hClosed hDrops =>
    have hHolds := h.drops hDrops
    rw [Book.enter, hTurn, hNone, foldl_nil]
    rcases hCompletes : completes p (.frame f) with _ | ch
    · exact hHolds
    · have hCh : p.pubChannel = ch := by
        simpa [completes] using (Option.ite_none_right_eq_some.mp hCompletes).2
      rw [Book.close_complete (hCh ▸ hClosed h.distinct)]
      exact hHolds
  | @waits seq op hTag hEnds hNone hKind hChannel hOp hDrops =>
    rw [Book.enter, hTurn, completes_frame hReading hTag hEnds, hNone, foldl_nil]
    refine Book.Holds.drops ?_ hDrops
    -- the new tag is at the end of those given out, and among the waiting
    have hOps : confirmOps { nextTag p with pendingOps := op :: p.pendingOps } =
        op :: p.confirmOps := filter_cons_of_pos (by simpa using hKind)
    refine h.assigned (chanState_of_lastTag hTag) (distinct_nextTag h.distinct)
      (chanState_nextTag hTag) h.stray ?_ ?_ ?_
    · rw [Book.complete, (h.page_some (chanState_of_lastTag hTag)).1]
    · intro ch hCh
      refine ⟨rfl, .of_eq ?_⟩
      rw [waitingTags, hOps, filter_cons_of_neg (by simpa [hChannel] using Ne.symm hCh),
        waitingTags]
    · rw [waitingTags, hOps, filter_cons_of_pos (by simpa using hChannel), map_cons, hOp]
      exact (perm_middle).trans (perm_append_singleton _ _).symm
  | @answered seq nack hTag hEnds hOne hDrops =>
    -- the confirm names the tag that the turn owes, acked or nacked
    have hDue : due p (.frame f) = some (p.pubChannel, seq + 1) := by
      simp [due, hActive, chanState_of_lastTag hTag]
    have hAnswer : ∀ c : Book, Book.answer (some (p.pubChannel, seq + 1)) c
        (confirmFrame p.pubChannel (seq + 1) nack) = c.settle p.pubChannel (seq + 1) := by
      intro c
      cases nack with
      | true => exact if_pos (.inl rfl)
      | false => exact if_pos (.inr rfl)
    rw [Book.enter, hTurn, completes_frame hReading hTag hEnds, hOne, foldl_cons, foldl_nil, hDue,
      hAnswer]
    refine Book.Holds.drops ?_ hDrops
    refine h.assigned (chanState_of_lastTag hTag) (distinct_nextTag h.distinct)
      (chanState_nextTag hTag) h.stray ?_ ?_ ?_
    · show (b.complete (some p.pubChannel)).completed = _
      rw [Book.complete, (h.page_some (chanState_of_lastTag hTag)).1]
    · intro ch hCh
      exact ⟨Book.settle_of_ne hCh, .refl _⟩
    · rw [Book.settle_self]
      show ((b.answered p.pubChannel ++ [seq + 1]) ++ waitingTags p p.pubChannel).Perm _
      rw [append_assoc, append_assoc]
      exact perm_append_comm.append_left _

theorem holds_managed (h : b.Holds p) (hActive : p.pubActive = false)
    (hManaged : Managed p x.proto (journal x.done)) : (b.enter p x).Holds x.proto := by
  have hCompletes : completes p x.turn = none := by
    unfold completes
    split
    · simp [contentEnds, hActive]
    · rfl
  cases hManaged with
  | tame hNone hDrops => exact holds_quiet h hCompletes hNone id hDrops
  | opened hNone hFree hDrops => exact holds_quiet h hCompletes hNone (·.opened hFree) hDrops
  | selected hNone hDrops => exact holds_quiet h hCompletes hNone (·.selected _) hDrops

/-- The timer of a waiting confirm answers the tag it has waited for. -/
theorem holds_polled (h : b.Holds p) {i : Nat} (hTurn : x.turn = .opTimer i)
    (hReturns : (pendingOpTimerCb cfg p i).Returns x.done x.proto) :
    (b.enter p x).Holds x.proto := by
  have hCompletes : completes p x.turn = none := by
    rw [hTurn]
    rfl
  rcases hOp : p.pendingOps[i]? with _ | op
  · have hPure : pendingOpTimerCb cfg p i = pure p := by
      unfold pendingOpTimerCb
      rw [hOp]
    rw [hPure] at hReturns
    obtain ⟨hDone, hSame⟩ := returns_pure hReturns
    refine holds_quiet h hCompletes (by rw [hDone]; rfl) id ?_
    rw [hSame]
    exact .refl p
  · by_cases hKind : op.kind = .publishConfirm
    · obtain ⟨status, now, rest, -, hPoll⟩ := poll_of_returns hOp hKind hReturns
      by_cases hWaits : status = .pending ∧ now < op.deadline
      · rw [if_pos hWaits] at hPoll
        refine holds_quiet h hCompletes hPoll.1 id ?_
        rw [hPoll.2]
        exact .refl p
      rw [if_neg hWaits] at hPoll
      obtain ⟨hOne, hChan, hOps⟩ := hPoll
      have hMem : op ∈ p.confirmOps :=
        mem_filter.mpr ⟨mem_of_getElem? hOp, by simpa using hKind⟩
      have hDue : due p x.turn = some (op.channel, op.confirmTag) := by
        simp [due, hTurn, hOp, hKind, h.waits hMem]
      rw [Book.enter, hCompletes, hOne, foldl_cons, foldl_nil, hDue]
      have hAnswer : Book.answer (some (op.channel, op.confirmTag)) (b.complete none)
          (confirmFrame op.channel op.confirmTag (decide (status ≠ .committed))) =
            b.settle op.channel op.confirmTag := by
        refine if_pos ?_
        cases decide (status ≠ .committed)
        · exact .inr rfl
        · exact .inl rfl
      rw [hAnswer]
      -- first the wait goes, then nothing else
      have hPerm : p.confirmOps.Perm
          (op :: confirmOps { p with pendingOps := p.pendingOps.eraseIdx i }) := by
        obtain ⟨hLt, rfl⟩ := List.getElem?_eq_some_iff.mp hOp
        refine ((getElem_cons_eraseIdx_perm hLt).symm.filter _).trans ?_
        rw [filter_cons_of_pos (by simpa using hKind)]
        exact .refl _
      exact (h.polled (q := { p with pendingOps := p.pendingOps.eraseIdx i }) h.distinct
        (fun _ => rfl) hPerm).drops (.of_same hChan hOps)
    · have hTame := journal_of_returns (obeys_unconfirmed cfg (keeps_pendingOpTimerCb hOp hKind)) hReturns
      exact holds_quiet h hCompletes (by rw [hTame.2]) id hTame.1

/-- **Every turn keeps the book right.** -/
theorem holds_step {s t : Desk} (hStep : s.step x = some t) (hCan : s.Can cfg x)
    (h : s.book.Holds s.proto) : t.book.Holds t.proto := by
  cases hStep
  -- the turns that close channels at most
  have hTame : ∀ {prog : Proc Proto},
      journaling.Obeys prog [] (fun q j => s.proto.Drops q ∧ j = []) →
      prog.Returns x.done x.proto → completes s.proto x.turn = none →
        (s.book.enter s.proto x).Holds x.proto := by
    intro prog hProg hReturns hCompletes
    have hJournal := journal_of_returns hProg hReturns
    exact holds_quiet h hCompletes hJournal.2 id hJournal.1
  have hCompletes : (∀ f, x.turn ≠ .frame f) → completes s.proto x.turn = none := by
    intro hOther
    unfold completes
    split
    · rename_i f hFrame
      exact absurd hFrame (hOther f)
    · rfl
  unfold Desk.Can at hCan
  generalize hTurn : x.turn = turn at hCan
  cases turn with
  | greeting right =>
    refine hTame (obeys_unconfirmed cfg ?_) hCan (hCompletes (by simp [hTurn]))
    cases right with
    | true => exact Keeps.after (.advance _ .handshake) (keeps_sendMethod _ _ _ rfl)
    | false =>
      exact keeps_act (show isConfirm protocolHeader = false by decide) fun _ => keeps_protoFatal _
  | frame f =>
    dsimp only [Turn.program] at hCan
    split at hCan
    · rename_i hClosing
      obtain ⟨hDone, hSame⟩ := returns_pure hCan
      refine holds_quiet h ?_ (by rw [hDone]; rfl) id (hSame ▸ .refl s.proto)
      simp [completes, hTurn, hClosing]
    rename_i hOpen
    cases hActive : s.proto.pubActive with
    | true =>
      have hEnded := journal_of_returns (obeys_contentFrame x.fuel hActive f) hCan
      exact holds_ended h hTurn hActive hOpen hEnded
    | false =>
      have hManaged := journal_of_returns (obeys_methodFrame x.fuel hActive hOpen f) hCan
      exact holds_managed h hActive hManaged
  | badFrame =>
    exact hTame (obeys_unconfirmed cfg (keeps_protoFatal s.proto)) hCan (hCompletes (by simp [hTurn]))
  | authDone =>
    exact hTame (obeys_unconfirmed cfg (keeps_authWorkAfterCb s.proto)) hCan (hCompletes (by simp [hTurn]))
  | opTimer i =>
    exact holds_polled h hTurn hCan
  | unblock =>
    exact hTame (obeys_unconfirmed cfg (keeps_connUnblock s.proto)) hCan (hCompletes (by simp [hTurn]))
  | closed =>
    exact hTame (obeys_unconfirmed cfg (keeps_protocolConnFree s.proto)) hCan (hCompletes (by simp [hTurn]))
  | deliver =>
    refine hTame ?_ hCan (hCompletes (by simp [hTurn]))
    refine (obeys_still (does_onAsync x.fuel) []).bind ?_
    rintro _ _ rfl
    exact ⟨.refl _, rfl⟩

theorem holds_run {conn : Nat} {s : Desk}
    (hReach : Run.Reach Desk.step (fun s x _ => s.Can cfg x) (Desk.start conn) s) :
    s.book.Holds s.proto :=
  hReach.invariant (P := fun s => s.book.Holds s.proto)
    (fun _ _ _ hInv hStep hCan => holds_step hStep hCan hInv) (holds_start conn)

/-! ## Every run -/

theorem completed_answers (expected : Option (Nat × Nat)) (b : Book) (frames : List Bytes) :
    (frames.foldl (Book.answer expected) b).completed = b.completed := by
  induction frames generalizing b with
  | nil => rfl
  | cons bytes frames ih =>
    rw [foldl_cons, ih]
    unfold Book.answer
    split
    · split <;> rfl
    · rfl

theorem completed_enter {s t : Desk} (hStep : s.step x = some t) {ch : Nat}
    (hCompletes : completes s.proto x.turn = some ch) (hOpen : (t.proto.chanState ch).isSome) :
    t.book.completed ch = s.book.completed ch + 1 := by
  cases hStep
  show (if (x.proto.chanState ch).isSome then _ else 0) = _
  rw [if_pos hOpen, completed_answers, hCompletes]
  exact update_self ..

theorem open_of_completes {turn : Turn} {ch : Nat} (hCompletes : completes p turn = some ch) :
    (p.chanState ch).isSome := by
  unfold completes at hCompletes
  split at hCompletes
  · split at hCompletes <;> cases hCompletes
    rename_i hChecks
    rcases hState : p.chanState p.pubChannel with _ | y
    · simp [hState] at hChecks
    · rfl
  · cases hCompletes

/-- **The publisher confirms of every run.** Every confirm answers a publish of the channel as
it is open now; on each open channel the tags answered and the tags that wait are together the
tags of the completed publishes, each once; waits are on open channels only. The `k`-th publish
completed in confirm mode is the one that brings tag `k`. A poll that finds the proposal decided
or the deadline passed sends exactly one confirm, with the tag that waited, and ends the wait. -/
theorem publisher_confirms {cfg : Cfg} {conn : Nat} {s : Desk}
    (hReach : Run.Reach Desk.step (fun s x _ => s.Can cfg x) (Desk.start conn) s) :
    s.book.stray = [] ∧
    (∀ ch, (s.proto.chanState ch).isSome →
      (s.book.answered ch ++ waitingTags s.proto ch).Perm
        (List.range' 1 (s.book.completed ch))) ∧
    (∀ op ∈ s.proto.confirmOps, (s.proto.chanState op.channel).isSome) ∧
    (∀ x t ch, s.step x = some t → s.Can cfg x → completes s.proto x.turn = some ch →
      (t.proto.chanState ch).isSome →
        t.book.completed ch = s.book.completed ch + 1 ∧
          (t.book.answered ch ++ waitingTags t.proto ch).Perm
            (s.book.answered ch ++ waitingTags s.proto ch ++ [t.book.completed ch])) ∧
    ∀ i op done q, s.proto.pendingOps[i]? = some op → op.kind = .publishConfirm →
      (pendingOpTimerCb cfg s.proto i).Returns done q →
        ∃ (status : ProposalStatus) (now : Nat) (rest : List (Sigma Act.Ret)),
          done = ⟨.ask (.proposalStatus op.seq), status⟩ :: ⟨.ask .now, now⟩ :: rest ∧
          if status = .pending ∧ now < op.deadline then
            journal done = [] ∧ q = s.proto
          else
            journal done =
                [confirmFrame op.channel op.confirmTag (decide (status ≠ .committed))] ∧
              q.channels = s.proto.channels ∧ q.pendingOps = s.proto.pendingOps.eraseIdx i := by
  have hHolds := holds_run hReach
  refine ⟨hHolds.stray, fun _ => hHolds.tags, fun _ => hHolds.waits, ?_, ?_⟩
  · intro x t ch hStep hCan hCompletes hOpen
    have hCount := completed_enter hStep hCompletes hOpen
    have hAfter := (holds_step hStep hCan hHolds).tags hOpen
    have hBefore := hHolds.tags (open_of_completes hCompletes)
    refine ⟨hCount, hAfter.trans ?_⟩
    rw [hCount, range'_1_concat, Nat.add_comm 1 (s.book.completed ch)]
    exact (hBefore.append_right _).symm
  · intro i op done q hOp hKind hReturns
    exact poll_of_returns hOp hKind hReturns

/-! ### A session -/

def Desk.play {σ : Type} (cfg : Cfg) (exec : (a : Act) → σ → a.Ret × σ) (s : Desk × σ)
    (turn : Turn) : Option (Desk × σ) :=
  let out := (turn.program cfg 9 s.1.proto).execute exec s.2
  out.2.1.map fun q => ({ proto := q, book := s.1.book.enter s.1.proto ⟨turn, 9, out.1, q⟩ }, out.2.2)

theorem reach_of_play {σ : Type} {exec : (a : Act) → σ → a.Ret × σ} {turns : List Turn}
    {s t : Desk × σ} (hPlay : Run.runList (Desk.play cfg exec) s turns = some t) :
    Run.Reach Desk.step (fun s x _ => s.Can cfg x) s.1 t.1 := by
  induction turns generalizing s with
  | nil =>
    cases hPlay
    exact .refl
  | cons turn turns ih =>
    obtain ⟨u, hTurn, hRest⟩ := Option.bind_eq_some_iff.mp hPlay
    obtain ⟨q, hQ, rfl⟩ := Option.map_eq_some_iff.mp hTurn
    refine Run.Reach.trans ?_ (ih hRest)
    exact .next (e := ⟨turn, 9, _, q⟩) .refl rfl (returns_of_execute hQ)

/-- A client in confirm mode publishes a persistent and a transient message, and the cluster
commits the first. -/
def confirmTurns : List Turn :=
  let method (ch classId methodId : Nat) (args : Bytes) : Turn :=
    .frame ⟨frameMethod, ch, beBytes 2 classId ++ beBytes 2 methodId ++ args⟩
  let header (props : Bytes) : Turn :=
    .frame ⟨frameHeader, 1, beBytes 4 0 ++ beBytes 8 0 ++ props⟩
  let publish : Turn := method 1 classBasic basicPublish (beBytes 2 0 ++ [0, 1, 0x71, 0])
  [.greeting true,
    method 0 classConnection connectionStartOk (putLongstr [] ++ [0] ++ putLongstr [] ++ [0]),
    method 0 classConnection connectionOpen (putShortstr (ascii "/") ++ [0, 0]),
    method 1 classChannel channelOpen [],
    method 1 classConfirm confirmSelect [0],
    publish, header [0x10, 0, 2],
    publish, header [0, 0],
    .opTimer 0]

def confirmCfg : Cfg := { cluster := true }

def confirmServer : Server :=
  { (({} : Server).accept (.worker 0)).2 with verdict := fun _ => .committed }

/-- The transient message is confirmed at once and the persistent one by the poll. -/
theorem publisher_confirms_both : ∃ s : Desk,
    (s.book.answered 1 = [2, 1] ∧ s.book.completed 1 = 2 ∧ waitingTags s.proto 1 = []) ∧
      s.book.stray = [] := by
  have hPlay : (Run.runList (Desk.play confirmCfg (Act.run confirmCfg (.worker 0)))
      (Desk.start 1, confirmServer) confirmTurns).any (fun t =>
        decide (t.1.book.answered 1 = [2, 1] ∧ t.1.book.completed 1 = 2 ∧
          waitingTags t.1.proto 1 = [])) = true := by
    decide +kernel
  obtain ⟨t, hRun, hEnd⟩ := Run.exists_of_runList hPlay
  exact ⟨t.1, hEnd, (publisher_confirms (reach_of_play hRun)).1⟩

end Confirming

end BeaverMQ.Amqp
