import BeaverMQ.Server.Discipline
import BeaverMQ.Wire.Content
import Mathlib.Data.List.ReduceOption

/-!
# BeaverMQ — frames that come at the wrong time

`dispatch_frame` asks whether a publish is being assembled before it looks at the type of a frame.
Between two commands a heartbeat is read and forgotten; between a `Basic.Publish` and its content it
is the wrong frame, and the connection is closed.

`send_channel_close` takes the channel away at once. What the client sent on it before it read the
`Channel.Close` then meets `require_channel`, which closes the whole connection; and the content of
a publish that is half assembled when a deferred operation fails is still taken, and routed.
-/

namespace BeaverMQ.Amqp

/-! ## Heartbeats -/

section Heartbeats

def heartbeat : Frame := ⟨frameHeartbeat, 0, []⟩

/-- Frames with heartbeats, written `none`, anywhere between them. -/
def withBeats (items : List (Option Frame)) : List Frame := items.map (·.getD heartbeat)

/-- No publish is half assembled, or the connection reads no more. -/
def Proto.Idle (p : Proto) : Prop := p.state = .closing ∨ p.pubActive = false

instance : DecidablePred Proto.Idle := fun _ => inferInstanceAs (Decidable (_ ∨ _))

variable (cfg : Cfg) (fuel : Nat)

/-- However the frames before it end, each heartbeat comes to an idle connection. -/
def BeatsBetween : List (Option Frame) → Proto → Prop
  | [], _ => True
  | none :: items, p => p.Idle ∧ BeatsBetween items p
  | some f :: items, p => (takeFrame cfg fuel p f).Ends (BeatsBetween items)

theorem takeFrame_heartbeat (p : Proto) :
    takeFrame cfg fuel p heartbeat = if p.Idle then pure p else protoFatal cfg p := by
  by_cases hClosing : p.state = .closing
  · rw [takeFrame, if_pos hClosing, if_pos (.inl hClosing)]
  -- an empty payload keeps every `frame_max`
  have hShort : ¬ (0 < p.frameMax ∧ p.frameMax < heartbeat.payload.length) :=
    fun h => Nat.not_lt_zero _ h.2
  rw [takeFrame, if_neg hClosing, if_neg hShort, dispatchFrame]
  cases hActive : p.pubActive with
  | false =>
    have hIdle : p.Idle := .inr hActive
    rw [if_pos hIdle]
    rfl
  | true =>
    have hBusy : ¬ p.Idle := by simp [Proto.Idle, hClosing, hActive]
    rw [if_neg hBusy]
    cases p.pubHaveHeader <;> rfl

theorem takeFrames_withBeats {items : List (Option Frame)} {p : Proto}
    (hBetween : BeatsBetween cfg fuel items p) :
    (withBeats items).foldlM (takeFrame cfg fuel) p =
      items.reduceOption.foldlM (takeFrame cfg fuel) p := by
  induction items generalizing p with
  | nil => rfl
  | cons item items ih =>
    cases item with
    | none =>
      obtain ⟨hIdle, hRest⟩ := hBetween
      rw [List.reduceOption_cons_of_none, ← ih hRest]
      show (takeFrame cfg fuel p heartbeat >>= _) = _
      rw [takeFrame_heartbeat, if_pos hIdle, pure_bind]
      rfl
    | some f =>
      rw [List.reduceOption_cons_of_some]
      -- both go on from what the frame leaves, which is the same program
      exact Prog.Ends.bind_congr hBetween fun q hq => ih hq

theorem fits_withBeats {items : List (Option Frame)} (hFits : ∀ f ∈ items.reduceOption, f.Fits) :
    ∀ f ∈ withBeats items, f.Fits := by
  intro f hf
  obtain ⟨item, hItem, rfl⟩ := List.mem_map.mp hf
  cases item with
  | none => exact ⟨by decide, by decide, by decide⟩
  | some f => exact hFits f (List.reduceOption_mem_iff.mpr hItem)

/-- **Heartbeats are transparent between commands, and only there.** In front of any frames a
heartbeat is forgotten exactly when no publish is half assembled; and a client whose heartbeats all
come like that is served, byte for byte, by the program that serves it without them: the same frames
written, the same calls of the broker, the same end. -/
theorem heartbeat_transparent :
    (∀ p : Proto, (∀ fs, (heartbeat :: fs).foldlM (takeFrame cfg fuel) p =
      fs.foldlM (takeFrame cfg fuel) p) ↔ p.Idle) ∧
    ∀ (items : List (Option Frame)) (p : Proto), (∀ f ∈ items.reduceOption, f.Fits) →
      BeatsBetween cfg fuel items p →
      Stream.settled <$> onData cfg fuel ⟨p, true, []⟩
          ((withBeats items).map Frame.bytes).flatten =
        Stream.settled <$> onData cfg fuel ⟨p, true, []⟩
          (items.reduceOption.map Frame.bytes).flatten := by
  refine ⟨fun p => ⟨fun hSame => ?_, fun hIdle fs => ?_⟩, fun items p hFits hBetween => ?_⟩
  · by_contra hBusy
    have hOpen : p.state ≠ .closing := fun hClosing => hBusy (.inl hClosing)
    have hNone := hSame []
    rw [List.foldlM_cons, takeFrame_heartbeat, if_neg hBusy, protoFatal, protoClose,
      if_neg hOpen] at hNone
    -- closing starts with an action, and returning has none
    cases hNone
  · rw [List.foldlM_cons, takeFrame_heartbeat, if_pos hIdle, pure_bind]
  · rw [onData_resume cfg fuel _ rfl, onData_resume cfg fuel _ rfl]
    unfold resume
    split
    · rfl
    exact (frameLoop_frames cfg fuel (fits_withBeats hFits) p (Nat.lt_succ_self _)).trans
      ((congrArg _ (takeFrames_withBeats cfg fuel hBetween)).trans
        (frameLoop_frames cfg fuel hFits p (Nat.lt_succ_self _)).symm)

/-- Heartbeats around a `Channel.Close-Ok`. -/
theorem heartbeat_transparent_closeOk : let closeOk : Frame := ⟨frameMethod, 1, [0, 20, 0, 41]⟩
    Stream.settled <$> onData {} 5 ⟨demoProto, true, []⟩
        ([heartbeat, closeOk, heartbeat].map Frame.bytes).flatten =
      Stream.settled <$> onData {} 5 ⟨demoProto, true, []⟩ ([closeOk].map Frame.bytes).flatten := by
  intro closeOk
  have hFits : closeOk.Fits := ⟨by decide, by decide, by decide⟩
  exact (heartbeat_transparent {} 5).2 [none, some closeOk, none] demoProto
    (fun f hf => List.mem_singleton.mp hf ▸ hFits) ⟨.inr rfl, .inr rfl, trivial⟩

/-- A heartbeat between a `Basic.Publish` and its content header: the connection is closed, where
without it the message is routed. -/
theorem heartbeat_in_publish : let fs := (demoPublish []).frames 1
    ((fs.take 1 ++ heartbeat :: fs.drop 1).foldlM (takeFrame {} 5) demoProto).head.any
        (· matches .beginClose _) = true ∧
      (fs.foldlM (takeFrame {} 5) demoProto).head.any (· matches .ask (.routeTargets ..)) = true := by
  decide +kernel

end Heartbeats

variable {cfg : Cfg} {fuel : Nat} {p : Proto} {f : Frame} {ch : Nat}

/-! ## A channel that is gone -/

/-- The channel is closed, and nothing of it is left. -/
structure Proto.Dead (p : Proto) (ch : Nat) : Prop where
  reading : p.state ≠ .closing
  opened : p.connectionOpen = true
  nonzero : ch ≠ 0
  gone : p.channelFind ch = none
  pending : ∀ op ∈ p.pendingOps, op.channel ≠ ch

/-- The connection stays, with its channels and their deferred answers. -/
def Proto.Untouched (p q : Proto) : Prop :=
  q.state ≠ .closing ∧ q.channels = p.channels ∧ q.pendingOps = p.pendingOps

theorem Proto.Dead.untouched (h : p.Dead ch) : p.Untouched p := ⟨h.reading, rfl, rfl⟩

/-! ## What is ignored -/

/-- What may be done for a frame that is ignored: look, and write to the client. The dispatcher has
no consumer of the channel any more, and writes succeed. -/
def aside (c ch : Nat) : Protocol Act Act.Ret Unit where
  may _ a := match a with
    | .ask _ => True
    | .send c' _ => c' = c
    | _ => False
  yields _ a r := match a, r with
    | .ask .consumers, cs => ∀ k ∈ cs, ¬ (k.conn = c ∧ k.channel = ch)
    | .send .., sent => sent = true
    | _, _ => True
  next _ _ _ := ()

/-- The frame does not close the connection, and changes nothing in the broker or its channels. -/
def Ignored (cfg : Cfg) (fuel : Nat) (p : Proto) (f : Frame) : Prop :=
  (aside p.conn f.channel).Obeys (dispatchFrame cfg (fuel + 1) p f) () fun q _ => p.Untouched q

def methodIds (payload : Bytes) : Option (Nat × Nat) :=
  (readUint 2 payload).bind fun x => (readUint 2 x.2).map fun y => (x.1, y.1)

/-- Content of the publish that is being assembled, and not the end of it. -/
def Proto.Awaits (cfg : Cfg) (p : Proto) (f : Frame) : Prop :=
  f.channel = p.pubChannel ∧
    if p.pubHaveHeader then
      f.type = frameBody ∧ p.pubBodyReceived + f.payload.length < p.pubBodySize
    else f.type = frameHeader ∧ ∃ x, readContentHeader f.payload = some x ∧ 0 < x.1 ∧
      x.1 ≤ bodyLimit cfg.maxMessageSize

/-- The frames that are ignored: between two commands a heartbeat and the `Channel.Close` and
`Channel.Close-Ok` of the client, and in a publish what does not complete it. -/
def Overlooked (cfg : Cfg) (p : Proto) (f : Frame) : Prop :=
  if p.pubActive then p.Awaits cfg f
  else f.type = frameHeartbeat ∨ f.type = frameMethod ∧
    (methodIds f.payload = some (classChannel, channelClose) ∨
      methodIds f.payload = some (classChannel, channelCloseOk))

section Programs

variable {c : Nat} {Q : Proto → Unit → Prop}

theorem not_obeys_protoFatal (hReading : p.state ≠ .closing) :
    ¬ (aside c ch).Obeys (protoFatal cfg p) () Q := by
  intro h
  rw [protoFatal, protoClose, if_neg hReading] at h
  exact h.1

theorem not_obeys_finalizePublish (body : Bytes) :
    ¬ (aside c ch).Obeys (finalizePublish cfg (fuel + 1) p body) () Q := by
  intro h
  -- the write is permitted
  have hPerm : ∀ K : Bool → Proc Proto,
      (aside c ch).Obeys (permOk cfg p .write p.pubExchange >>= K) () Q →
        (aside c ch).Obeys (K true) () Q := by
    intro K hK
    unfold permOk at hK
    split at hK
    · exact hK.2 true trivial
    · exact hK
  have hGo := hPerm _ h
  simp only [Bool.not_true, Bool.false_eq_true, if_false] at hGo
  split at hGo
  · exact hGo.1
  · exact (hGo.2 [⟨[], [], 0, 0⟩] trivial).1

theorem obeys_guard {b : Prop} [Decidable b] {bad rest : Proc Proto}
    (hBad : ¬ (aside c ch).Obeys bad () Q) :
    (aside c ch).Obeys (if b then bad else rest) () Q ↔ ¬ b ∧ (aside c ch).Obeys rest () Q := by
  split <;> simp [*]

theorem obeys_only {b : Prop} [Decidable b] {bad rest : Proc Proto}
    (hBad : ¬ (aside c ch).Obeys bad () Q) :
    (aside c ch).Obeys (if b then rest else bad) () Q ↔ b ∧ (aside c ch).Obeys rest () Q := by
  split <;> simp [*]

/-- On a dead channel only the channel class is served. -/
theorem handleMethod_dead (hDead : p.Dead ch) (payload : Bytes) :
    handleMethod cfg fuel p ch payload =
      match methodIds payload with
      | none => protoFatal cfg p
      | some (classId, methodId) =>
        if classId = classChannel then handleChannel cfg p ch methodId else protoFatal cfg p := by
  have hGuard : ∀ rest, withChannel cfg p ch rest = protoFatal cfg p := by
    intro rest
    simp [withChannel, withOpen, hDead.opened, hDead.gone]
  unfold handleMethod methodIds
  cases readUint 2 payload with
  | none => rfl
  | some x =>
    obtain ⟨classId, r⟩ := x
    dsimp only [Option.bind_some]
    cases readUint 2 r with
    | none => rfl
    | some y =>
      dsimp only [Option.map_some]
      by_cases hClass : classId = classChannel
      · subst hClass
        rfl
      rw [if_neg hClass, if_neg hClass]
      simp only [handleConnection, handleExchange, handleQueue, handleBasic, handleConfirm, hGuard,
        ne_eq, hDead.nonzero, not_false_eq_true, if_true, ite_self]

theorem obeys_channelClose (hDead : p.Dead ch) :
    (aside p.conn ch).Obeys (handleChannel cfg p ch channelClose) () fun q _ =>
      p.Untouched q := by
  have hOps : (p.cancelPendingOps ch).pendingOps = p.pendingOps :=
    List.filter_eq_self.mpr fun op hop => by simpa using hDead.pending op hop
  have hNobody : ∀ cs : List Consumer, (∀ k ∈ cs, ¬ (k.conn = p.conn ∧ k.channel = ch)) →
      (cs.forM fun k => if k.conn = p.conn ∧ k.channel = ch then consumerDestroy cfg k
        else return ()) = (pure () : Proc Unit) := by
    intro cs hNone
    induction cs with
    | nil => rfl
    | cons k cs ih =>
      show ((if k.conn = p.conn ∧ k.channel = ch then consumerDestroy cfg k else pure ()) >>= _) = _
      rw [if_neg (hNone k List.mem_cons_self), pure_bind]
      exact ih fun x hx => hNone x (List.mem_cons_of_mem k hx)
  rw [handleChannel, withOpen, if_pos hDead.opened]
  show (aside p.conn ch).Obeys (channelTeardown cfg p ch >>= _) () _
  unfold channelTeardown dispatcherRemoveChannel
  refine ⟨trivial, fun cs hcs => ?_⟩
  show (aside p.conn ch).Obeys (((cs.forM fun k => if k.conn = p.conn ∧ k.channel = ch then
    consumerDestroy cfg k else return ()) >>= fun _ => channelRemove _ ch) >>= _) () _
  rw [hNobody cs hcs, pure_bind]
  rw [channelRemove, show (p.cancelPendingOps ch).channels.findIdx? (fun c => c.id = ch) = none from
    Proto.channelFind_eq_none_iff.mp hDead.gone]
  refine ⟨rfl, fun sent hSent => ?_⟩
  obtain rfl : sent = true := hSent
  exact ⟨hDead.reading, rfl, hOps⟩

/-- On a dead channel content is ignored only where content is awaited. -/
theorem ignored_content (hDead : p.Dead f.channel) (hActive : p.pubActive = true) :
    Ignored cfg fuel p f ↔ p.Awaits cfg f := by
  have hFatal : ∀ {ch Q}, ¬ (aside p.conn ch).Obeys (protoFatal cfg p) () Q :=
    not_obeys_protoFatal hDead.reading
  unfold Ignored dispatchFrame Proto.Awaits handleContentHeader handleContentBody
  rw [if_pos hActive]
  cases hHeader : p.pubHaveHeader with
  | false =>
    rw [Bool.not_false, if_pos rfl, obeys_guard hFatal, obeys_guard hFatal, not_not, not_not,
      and_left_comm, if_neg Bool.false_ne_true]
    refine and_congr_right' (and_congr_right' ?_)
    cases readContentHeader f.payload with
    | none => exact iff_of_false hFatal fun ⟨x, hx, _⟩ => nomatch hx
    | some x =>
      rw [obeys_guard hFatal, obeys_guard (not_obeys_finalizePublish [])]
      simp only [Option.some.injEq, exists_eq_left']
      exact ⟨fun h => by omega, fun h => ⟨by omega, by omega, hDead.untouched⟩⟩
  | true =>
    have hLength : (p.pubBody.getD [] ++ f.payload).length =
        p.pubBodyReceived + f.payload.length := by
      rw [List.length_append, Proto.pubBodyReceived]
      cases p.pubBody <;> rfl
    rw [Bool.not_true, if_neg Bool.false_ne_true, obeys_guard hFatal, obeys_guard hFatal, not_not,
      not_not, and_left_comm, if_pos rfl]
    refine and_congr_right' (and_congr_right' ?_)
    rw [obeys_guard hFatal, obeys_guard (not_obeys_finalizePublish _),
      obeys_guard (not_obeys_finalizePublish _), hLength]
    simp only [Bool.and_eq_true, decide_eq_true_eq]
    exact ⟨fun h => by omega, fun h => ⟨by omega, by omega, by omega, hDead.untouched⟩⟩

end Programs

/-! ## Which frames are ignored -/

/-- **Exactly the frames of `Overlooked` are ignored on a dead channel.** For every state of the
connection and every frame but the `Channel.Open` that brings the channel back: any other method and
any content outside of a publish close the connection, and content that completes a publish is
published. -/
theorem channel_isolation_iff (cfg : Cfg) (fuel : Nat) :
    (∀ (p : Proto) (ch code : Nat) (text : Bytes) (classId methodId : Nat), p.Distinct →
      (sendChannelClose cfg p ch code text classId methodId).Ends fun q =>
        q.channelFind ch = none ∧ ∀ op ∈ q.pendingOps, op.channel ≠ ch) ∧
    ∀ (p : Proto) (f : Frame), p.Dead f.channel →
      ¬ (f.type = frameMethod ∧ methodIds f.payload = some (classChannel, channelOpen)) →
      (Ignored cfg fuel p f ↔ Overlooked cfg p f) := by
  refine ⟨fun p ch code text classId methodId hDistinct =>
    (Conduct.ends_sendChannelClose p ch code text classId methodId).mono fun _ h => h hDistinct,
    fun p f hDead hOpen => ?_⟩
  unfold Overlooked
  cases hActive : p.pubActive with
  | true => exact ignored_content hDead hActive
  | false =>
    have hFatal : ∀ {Q}, ¬ (aside p.conn f.channel).Obeys (protoFatal cfg p) () Q :=
      not_obeys_protoFatal hDead.reading
    unfold Ignored dispatchFrame
    simp only [hActive, Bool.false_eq_true, if_false]
    by_cases hMethod : f.type = frameMethod
    · have hBeat : frameMethod ≠ frameHeartbeat := by decide
      simp only [hMethod, true_and] at hOpen
      simp only [hMethod, if_true, handleMethod_dead hDead, hBeat, false_or, true_and]
      cases hIds : methodIds f.payload with
      | none => exact iff_of_false hFatal (by simp)
      | some ids =>
        obtain ⟨classId, methodId⟩ := ids
        simp only [obeys_only hFatal, Option.some.injEq, Prod.mk.injEq, ← and_or_left]
        refine and_congr_right fun hClass => ?_
        by_cases hClose : methodId = channelClose
        · subst hClose
          exact iff_of_true (obeys_channelClose hDead) (.inl rfl)
        rw [handleChannel, withOpen, if_pos hDead.opened,
          if_neg fun h => hOpen (by rw [hIds, hClass, h]), if_neg hClose, obeys_only hFatal]
        exact ⟨fun h => .inr h.1, fun h => ⟨h.resolve_left hClose, hDead.untouched⟩⟩
    · rw [if_neg hMethod, obeys_only hFatal]
      exact ⟨fun h => .inl h.1, fun h => ⟨h.resolve_right (hMethod ·.1), hDead.untouched⟩⟩

/-- A connection whose channel 1 the broker has closed, with channel 2 open. -/
def deadProto : Proto := { demoProto with channels := [{ id := 2 }] }

theorem dead_deadProto : deadProto.Dead 1 :=
  ⟨by decide, rfl, by decide, rfl, fun _ hop => nomatch hop⟩

/-- The client's own `Channel.Close` crosses that of the broker. -/
theorem channel_isolation_crossing : Ignored {} 5 deadProto ⟨frameMethod, 1, [0, 20, 0, 40]⟩ :=
  ((channel_isolation_iff {} 5).2 deadProto _ dead_deadProto (by decide)).mpr
    (.inr ⟨rfl, .inl rfl⟩)

/-- A `Basic.Publish` behind the command that was refused closes the connection, with its other
channel; and with its method read before, the message is routed. -/
theorem channel_isolation_broken :
    (dispatchFrame {} 5 deadProto ⟨frameMethod, 1, (demoPublish []).method⟩).head.any
        (· matches .beginClose _) = true ∧
      ((((demoPublish []).frames 1).drop 1).foldlM (dispatchFrame {} 5)
        (deadProto.begun 1 (demoPublish []))).head.any (· matches .ask (.routeTargets ..)) = true := by
  decide +kernel

end BeaverMQ.Amqp
