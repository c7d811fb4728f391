import BeaverMQ.Model.Protocol

/-!
# BeaverMQ — the part of a connection that confirms depend on

A connection keeps, for each open channel, whether it is in confirm mode and the last delivery
tag it gave out, and the publishes whose confirm waits for the cluster. Almost every handler
does to these no more than to close channels: what is left is what was there, less the channels
that went and the waits on them.
-/

namespace BeaverMQ.Amqp

open List Bytes

/-! ## Confirms on the wire -/

def confirmFrame (ch tag : Nat) (nack : Bool) : Bytes :=
  methodFrame ch classBasic (if nack then basicNack else basicAck)
    (beBytes 8 tag ++ beBytes 1 0)

/-- The first frame of what is sent is a confirm. -/
def isConfirm (bytes : Bytes) : Bool :=
  bytes.take 1 = beBytes 1 frameMethod && (bytes.drop 7).take 2 = beBytes 2 classBasic &&
    ((bytes.drop 9).take 2 = beBytes 2 basicAck ||
      (bytes.drop 9).take 2 = beBytes 2 basicNack)

def confirms (classId methodId : Nat) : Bool :=
  beBytes 2 classId = beBytes 2 classBasic &&
    (beBytes 2 methodId = beBytes 2 basicAck ||
      beBytes 2 methodId = beBytes 2 basicNack)

theorem methodFrame_parts (ch classId methodId : Nat) (args rest : Bytes) :
    let bytes := methodFrame ch classId methodId args ++ rest
    bytes.take 1 = beBytes 1 frameMethod ∧
      (bytes.drop 7).take 2 = beBytes 2 classId ∧
      (bytes.drop 9).take 2 = beBytes 2 methodId := by
  -- all of these bytes stand in front of the arguments, at places that are known
  exact ⟨rfl, rfl, rfl⟩

theorem isConfirm_methodFrame (ch classId methodId : Nat) (args rest : Bytes) :
    isConfirm (methodFrame ch classId methodId args ++ rest) = confirms classId methodId := by
  obtain ⟨hType, hClass, hMethod⟩ := methodFrame_parts ch classId methodId args rest
  simp [isConfirm, confirms, hType, hClass, hMethod]

@[simp] theorem isConfirm_confirmFrame (ch tag : Nat) (nack : Bool) :
    isConfirm (confirmFrame ch tag nack) = true := by
  have h := isConfirm_methodFrame ch classBasic (if nack then basicNack else basicAck)
    (beBytes 8 tag ++ beBytes 1 0) []
  rw [append_nil] at h
  rw [confirmFrame, h]
  cases nack <;> decide

theorem isConfirm_frameWrite {type : Nat} (ch : Nat) (payload : Bytes)
    (hType : beBytes 1 type ≠ beBytes 1 frameMethod) :
    isConfirm (frameWrite type ch payload) = false := by
  have hTake : (frameWrite type ch payload).take 1 = beBytes 1 type := by
    simp only [frameWrite, append_assoc]
    exact take_left' rfl
  simp [isConfirm, hTake, hType]

/-! ## Protocol states -/

/-- The confirm mode of an open channel and its counter. -/
def Proto.chanState (p : Proto) (ch : Nat) : Option (Bool × Nat) :=
  (p.channelFind ch).map fun c => (c.confirmMode, c.confirmSeq)

def Proto.confirmOps (p : Proto) : List PendingOp :=
  p.pendingOps.filter fun op => op.kind = .publishConfirm

/-- The connection has not been given up. -/
abbrev Proto.Open (p : Proto) : Prop := p.state ≠ .closing

def Proto.Distinct (p : Proto) : Prop := (p.channels.map Chan.id).Nodup

theorem Proto.ids_updChannel (p : Proto) (ch : Nat) {f : Chan → Chan} (hId : ∀ c, (f c).id = c.id) :
    (p.updChannel ch f).channels.map Chan.id = p.channels.map Chan.id := by
  rw [updChannel, map_map]
  refine map_congr_left fun c _ => ?_
  rw [Function.comp_apply]
  split
  · exact hId c
  · rfl

theorem Proto.channelFind_updChannel (p : Proto) {ch : Nat} {f : Chan → Chan}
    (hId : ∀ c, (f c).id = c.id) (ch' : Nat) :
    (p.updChannel ch f).channelFind ch' =
      (p.channelFind ch').map fun c => if ch' = ch then f c else c := by
  have hSame : ∀ c : Chan, (if c.id = ch then f c else c).id = c.id := by
    intro c
    split
    · exact hId c
    · rfl
  rw [channelFind, updChannel, find?_map]
  simp only [Function.comp_def, hSame]
  refine Option.map_congr fun c hMem => ?_
  have hCh : c.id = ch' := by simpa using find?_some hMem
  rw [hCh]

theorem Proto.channelFind_eq_some_iff {p : Proto} (hDistinct : p.Distinct) {ch : Nat} {c : Chan} :
    p.channelFind ch = some c ↔ c ∈ p.channels ∧ c.id = ch := by
  constructor
  · intro hFind
    exact ⟨mem_of_find?_eq_some hFind, by simpa using find?_some hFind⟩
  · rintro ⟨hMem, rfl⟩
    obtain ⟨d, hFind⟩ : ∃ d, p.channelFind c.id = some d := by
      rw [← Option.isSome_iff_exists, channelFind, find?_isSome]
      exact ⟨c, hMem, by simp⟩
    have hId : d.id = c.id := by simpa using find?_some hFind
    rw [hFind, inj_on_of_nodup_map hDistinct (mem_of_find?_eq_some hFind) hMem hId]

theorem Proto.channelFind_eq_none_iff {p : Proto} {ch : Nat} :
    p.channelFind ch = none ↔ p.channels.findIdx? (fun c => c.id = ch) = none := by
  rw [channelFind, find?_eq_none, findIdx?_eq_none_iff]
  simp

section SwapRemove

variable {p : Proto} (hDistinct : p.Distinct) {ch i : Nat}
  (hSome : p.channels.findIdx? (fun c => c.id = ch) = some i)
include hDistinct hSome

theorem Proto.perm_swapRemove_channels : ∃ gone : Chan, gone.id = ch ∧
    p.channels.Perm (gone :: p.channels.swapRemove i) ∧
    (ch :: (p.channels.swapRemove i).map Chan.id).Nodup := by
  obtain ⟨hLt, hCh, _⟩ := findIdx?_eq_some_iff_getElem.mp hSome
  have hId : p.channels[i].id = ch := by simpa using hCh
  have hPerm := perm_swapRemove (getElem?_eq_getElem hLt)
  refine ⟨_, hId, hPerm, ?_⟩
  have hNodup := (hPerm.map Chan.id).nodup_iff.mp hDistinct
  rwa [map_cons, hId] at hNodup

theorem Proto.channelFind_swapRemove {q : Proto} (hChan : q.channels = p.channels.swapRemove i) :
    q.channelFind ch = none := by
  obtain ⟨_, -, -, hNodup⟩ := perm_swapRemove_channels hDistinct hSome
  rw [channelFind, hChan, find?_eq_none]
  intro c hMem hEq
  exact (nodup_cons.mp hNodup).1 (mem_map.mpr ⟨c, hMem, by simpa using hEq⟩)

end SwapRemove

/-- In `q` some channels of `p` are closed, with the confirms that wait on them; the others are
as they were. -/
def Proto.Drops (p q : Proto) : Prop :=
  p.Distinct → q.Distinct ∧ ∃ keep : Nat → Bool,
    (∀ ch, q.chanState ch = if keep ch then p.chanState ch else none) ∧
      q.confirmOps = p.confirmOps.filter fun op => keep op.channel

namespace Proto.Drops

variable {p q r : Proto}

theorem of_view (hIds : q.channels.map Chan.id = p.channels.map Chan.id)
    (hChan : ∀ ch, q.chanState ch = p.chanState ch) (hOps : q.confirmOps = p.confirmOps) :
    p.Drops q := by
  intro hDistinct
  refine ⟨?_, fun _ => true, fun ch => ?_, ?_⟩
  · rwa [Proto.Distinct, hIds]
  · rw [if_pos rfl, hChan ch]
  · rw [hOps, filter_eq_self.mpr fun _ _ => rfl]

theorem of_same (hChan : q.channels = p.channels) (hOps : q.pendingOps = p.pendingOps) :
    p.Drops q := by
  refine of_view (by rw [hChan]) (fun ch => ?_) (by rw [confirmOps, confirmOps, hOps])
  rw [chanState, chanState, channelFind, channelFind, hChan]

theorem refl (p : Proto) : p.Drops p := of_same rfl rfl

theorem trans (hpq : p.Drops q) (hqr : q.Drops r) : p.Drops r := by
  intro hDistinct
  obtain ⟨hDistinct', keep, hChan, hOps⟩ := hpq hDistinct
  obtain ⟨hDistinct'', keep', hChan', hOps'⟩ := hqr hDistinct'
  refine ⟨hDistinct'', fun ch => keep' ch && keep ch, fun ch => ?_, ?_⟩
  · rw [hChan' ch, hChan ch]
    cases hKeep' : keep' ch <;> cases hKeep : keep ch <;> simp [hKeep, hKeep']
  · rw [hOps', hOps, filter_filter]

theorem updChannel (p : Proto) (ch : Nat) {f : Chan → Chan} (hId : ∀ c, (f c).id = c.id)
    (hMode : ∀ c, (f c).confirmMode = c.confirmMode) (hSeq : ∀ c, (f c).confirmSeq = c.confirmSeq) :
    p.Drops (p.updChannel ch f) := by
  refine of_view (p.ids_updChannel ch hId) (fun ch' => ?_) rfl
  · rw [chanState, channelFind_updChannel p hId, Option.map_map, chanState]
    refine Option.map_congr fun c _ => ?_
    rw [Function.comp_apply]
    split
    · rw [hMode, hSeq]
    · rfl

theorem push {op : PendingOp} (hKind : op.kind ≠ .publishConfirm) :
    p.Drops { p with pendingOps := op :: p.pendingOps } := by
  refine of_view rfl (fun _ => rfl) ?_
  rw [confirmOps, filter_cons_of_neg (by simpa using hKind), confirmOps]

theorem erase {i : Nat} {op : PendingOp} (hOp : p.pendingOps[i]? = some op)
    (hKind : op.kind ≠ .publishConfirm) :
    p.Drops { p with pendingOps := p.pendingOps.eraseIdx i } := by
  refine of_view rfl (fun _ => rfl) ?_
  obtain ⟨hLt, rfl⟩ := List.getElem?_eq_some_iff.mp hOp
  have hSplit : p.pendingOps = p.pendingOps.take i ++ p.pendingOps[i] :: p.pendingOps.drop (i + 1) := by
    rw [← drop_eq_getElem_cons hLt, take_append_drop]
  rw [confirmOps, confirmOps, eraseIdx_eq_take_drop_succ]
  conv_rhs => rw [hSplit]
  rw [filter_append, filter_append, filter_cons_of_neg (by simpa using hKind)]

theorem confirmOps_cancel (p : Proto) (ch : Nat) : (p.cancelPendingOps ch).confirmOps =
    p.confirmOps.filter fun op => decide (op.channel ≠ ch) := by
  rw [confirmOps, cancelPendingOps, confirmOps, filter_filter, filter_filter]
  exact filter_congr fun op _ => by simp only [Bool.and_comm]

theorem cancel {ch : Nat} (hNone : p.channels.findIdx? (fun c => c.id = ch) = none) :
    p.Drops (p.cancelPendingOps ch) := by
  intro hDistinct
  refine ⟨hDistinct, fun ch' => ch' ≠ ch, fun ch' => ?_, ?_⟩
  · by_cases hCh : ch' = ch
    · subst hCh
      show p.chanState ch' = _
      rw [chanState, channelFind_eq_none_iff.mpr hNone]
      simp
    · simp only [ne_eq, hCh, not_false_eq_true, decide_true, if_true]
      rfl
  · exact confirmOps_cancel p ch

/-- A closed channel takes its waiting confirms along. -/
theorem remove {ch i : Nat} (hSome : p.channels.findIdx? (fun c => c.id = ch) = some i) :
    p.Drops { p.cancelPendingOps ch with channels := p.channels.swapRemove i } := by
  intro hDistinct
  obtain ⟨gone, hId, hPerm, hNodup⟩ := perm_swapRemove_channels hDistinct hSome
  have hDistinct' : Proto.Distinct { p.cancelPendingOps ch with
      channels := p.channels.swapRemove i } := (nodup_cons.mp hNodup).2
  refine ⟨hDistinct', fun ch' => ch' ≠ ch, fun ch' => ?_, ?_⟩
  · by_cases hCh : ch' = ch
    · subst hCh
      simp only [ne_eq, not_true_eq_false, decide_false, Bool.false_eq_true, if_false]
      rw [chanState, channelFind_swapRemove hDistinct hSome rfl]
      rfl
    · simp only [ne_eq, hCh, not_false_eq_true, decide_true, if_true]
      refine congrArg _ (Option.ext fun c => ?_)
      rw [channelFind_eq_some_iff hDistinct', channelFind_eq_some_iff hDistinct, hPerm.mem_iff,
        mem_cons]
      refine and_congr_left fun hEq => ⟨.inr, fun h => h.resolve_left ?_⟩
      rintro rfl
      exact hCh (hEq.symm.trans hId)
  · exact confirmOps_cancel p ch

theorem clear (hChan : q.channels = []) (hOps : q.pendingOps = []) : p.Drops q := by
  intro _
  refine ⟨?_, fun _ => false, fun ch => ?_, ?_⟩
  · rw [Distinct, hChan]
    exact nodup_nil
  · rw [chanState, channelFind, hChan]
    rfl
  · rw [confirmOps, hOps]
    exact (filter_eq_nil_iff.mpr fun _ _ => Bool.false_ne_true).symm

end Proto.Drops

/-! ## The login -/

/-- What the login consists of, with the state that says if it still matters, and the exclusive
queues that go with it. -/
def Proto.login (p : Proto) : Nat × Bytes × Option AuthWork × Bytes × State × List Bytes :=
  (p.conn, p.user, p.pendingAuth, p.vhost, p.state, p.exclQueues)

/-- The later protocol state `q` of the connection with the same login; its virtual host does
not matter any more once it is closing, and exclusive queues may be gone. -/
structure Proto.SameLogin (p q : Proto) : Prop where
  conn : q.conn = p.conn
  user : q.user = p.user
  pendingAuth : q.pendingAuth = p.pendingAuth
  vhost : q.state = .closing ∨ q.vhost = p.vhost ∧ p.state ≠ .closing
  queues : q.exclQueues ⊆ p.exclQueues

namespace Proto.SameLogin

variable {p q r : Proto}

theorem of_same (h : q.login = p.login) : p.SameLogin q := by
  simp only [login, Prod.mk.injEq] at h
  obtain ⟨hConn, hUser, hAuth, hVhost, hState, hQueues⟩ := h
  refine ⟨hConn, hUser, hAuth, ?_, fun _ hName => hQueues ▸ hName⟩
  by_cases hClosing : p.state = .closing
  · exact .inl (hState.trans hClosing)
  · exact .inr ⟨hVhost, hClosing⟩

theorem trans (hpq : p.SameLogin q) (hqr : q.SameLogin r) : p.SameLogin r where
  conn := hqr.conn.trans hpq.conn
  user := hqr.user.trans hpq.user
  pendingAuth := hqr.pendingAuth.trans hpq.pendingAuth
  vhost := by
    obtain hClosing | ⟨hVhost, hOpen⟩ := hqr.vhost
    · exact .inl hClosing
    · obtain hClosing | ⟨hVhost', hOpen'⟩ := hpq.vhost
      · exact absurd hClosing hOpen
      · exact .inr ⟨hVhost.trans hVhost', hOpen'⟩
  queues := fun _ hName => hpq.queues (hqr.queues hName)

end Proto.SameLogin

/-- The login stays, and channels may be closed. -/
structure Proto.Follows (p q : Proto) : Prop extends Proto.SameLogin p q where
  drops : p.Drops q

namespace Proto.Follows

variable {p q r : Proto}

theorem of_drops (hLogin : q.login = p.login) (hDrops : p.Drops q) : p.Follows q :=
  ⟨.of_same hLogin, hDrops⟩

theorem of_same (hLogin : q.login = p.login) (hChan : q.channels = p.channels)
    (hOps : q.pendingOps = p.pendingOps) : p.Follows q :=
  .of_drops hLogin (.of_same hChan hOps)

/-- The name of an exclusive queue is gone. -/
theorem forgets {names : List Bytes} (hEq : q = { p with exclQueues := names })
    (hSub : names ⊆ p.exclQueues) : p.Follows q := by
  subst hEq
  refine ⟨⟨rfl, rfl, rfl, ?_, hSub⟩, .of_same rfl rfl⟩
  by_cases hClosing : p.state = .closing
  · exact .inl hClosing
  · exact .inr ⟨rfl, hClosing⟩

theorem refl (p : Proto) : p.Follows p := of_same rfl rfl rfl

theorem trans (hpq : p.Follows q) (hqr : q.Follows r) : p.Follows r :=
  ⟨hpq.toSameLogin.trans hqr.toSameLogin, hpq.drops.trans hqr.drops⟩

theorem closing (hConn : q.conn = p.conn) (hUser : q.user = p.user)
    (hAuth : q.pendingAuth = p.pendingAuth) (hClosing : q.state = .closing)
    (hQueues : q.exclQueues ⊆ p.exclQueues) (hDrops : p.Drops q) : p.Follows q :=
  ⟨⟨hConn, hUser, hAuth, .inl hClosing, hQueues⟩, hDrops⟩

theorem advance (p : Proto) (s : State) : p.Follows (p.advance s) := by
  unfold Proto.advance
  split
  · exact refl p
  · rename_i h
    exact ⟨⟨rfl, rfl, rfl, .inr ⟨rfl, fun hClosing => h (.inl hClosing)⟩, List.Subset.refl _⟩,
      .of_same rfl rfl⟩

end Proto.Follows

end BeaverMQ.Amqp
