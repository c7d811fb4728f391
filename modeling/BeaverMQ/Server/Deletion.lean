import BeaverMQ.Server.Discipline

/-!
# BeaverMQ — a conditional `Queue.Delete`

`Queue.Delete` reads what its conditions are about and removes the queue by name later: by
`broker_delete_queue`, whose result is not looked at, or when the proposed op is applied, without
conditions. In between other threads publish, consume, delete and declare.

A `Deletion` follows one request through its handler and the polls of its proposal, with the
states in which `broker_delete_queue` was called for it, whether Delete-Ok was written and whether
the connection forgot that it owns the queue.
-/

namespace BeaverMQ.Amqp

open List Bytes Prog

/-! ## Delete-Ok on the wire -/

def isDeleteOk (bytes : Bytes) : Bool :=
  bytes.take 1 = beBytes 1 frameMethod && (bytes.drop 7).take 2 = beBytes 2 classQueue &&
    (bytes.drop 9).take 2 = beBytes 2 queueDeleteOk

/-- An action that neither removes a queue for a `Queue.Delete`, nor proposes to, nor writes
Delete-Ok. -/
def Act.Silent : Act → Prop
  | .send _ bytes => isDeleteOk bytes = false
  | .deleteQueue _ _ _ _ wantCount => wantCount = false
  | .propose (.deleteQueue ..) => False
  | _ => True

theorem silent_send (c ch : Nat) {classId methodId : Nat} (args : Bytes)
    (hOther : beBytes 2 classId = beBytes 2 classQueue →
      beBytes 2 methodId ≠ beBytes 2 queueDeleteOk) :
    (Act.send c (methodFrame ch classId methodId args)).Silent := by
  obtain ⟨-, hClass, hMethod⟩ := methodFrame_parts ch classId methodId args []
  rw [append_nil] at hClass hMethod
  rw [Act.Silent, Bool.eq_false_iff]
  simp only [isDeleteOk, hClass, hMethod, ne_eq, Bool.and_eq_true, decide_eq_true_eq]
  rintro ⟨⟨-, hQueue⟩, hDelete⟩
  exact hOther hQueue hDelete

theorem Act.Teardown.silent {a : Act} (h : a.Teardown) : a.Silent := by
  cases a with
  | send => exact h.elim
  | deleteQueue => exact h
  | propose op =>
    cases op with
    | deleteQueue => exact h.elim
    | _ => trivial
  | _ => trivial

variable {cfg : Cfg}

theorem silent_protoFatal (p : Proto) : (protoFatal cfg p).Does Act.Silent := by
  unfold protoFatal protoClose connClose
  split
  · trivial
  refine does_bind (does_act (a := .beginClose _) trivial fun first => ?_) fun _ => trivial
  split
  · exact (does_dispatcherRemoveConnection p.conn).mono fun _ h => h.silent
  · trivial

theorem silent_sendChannelClose (p : Proto) (ch code : Nat) (text : Bytes)
    (classId methodId : Nat) :
    (sendChannelClose cfg p ch code text classId methodId).Does Act.Silent := by
  refine does_bind (does_act (silent_send _ _ _ ?_) fun sent => ?_) fun q => ?_
  · decide
  · split
    · trivial
    · exact silent_protoFatal p
  · unfold channelTeardown channelRemove
    refine does_bind ((does_dispatcherRemoveChannel q.conn ch).mono fun _ h => h.silent)
      fun _ => ?_
    split
    · trivial
    · refine does_bind ?_ fun _ => trivial
      exact (does_chanReleaseGetUnacked _ ch).mono fun _ h => h.1.silent

/-! ## What stays on record -/

theorem excl_protoFatal (p : Proto) :
    (protoFatal cfg p).Ends fun q => q.exclQueues = p.exclQueues := by
  unfold protoFatal protoClose
  split
  · rfl
  · exact ends_bind fun _ => rfl

theorem excl_sendMethod (p : Proto) (ch classId methodId : Nat) (args : Bytes) :
    (sendMethod cfg p ch classId methodId args).Ends fun q => q.exclQueues = p.exclQueues := by
  refine ends_bind fun sent => ?_
  split
  · rfl
  · exact excl_protoFatal p

theorem excl_sendChannelClose (p : Proto) (ch code : Nat) (text : Bytes)
    (classId methodId : Nat) : (sendChannelClose cfg p ch code text classId methodId).Ends
      fun q => q.exclQueues = p.exclQueues := by
  refine (excl_sendMethod p _ _ _ _).bind fun q hSent => ?_
  unfold channelTeardown channelRemove
  refine ends_bind fun _ => ?_
  split
  · exact hSent
  · exact ends_bind fun _ => hSent

/-! ## One request -/

/-- A `Queue.Delete` frame: its arguments are read as the handler reads them. -/
structure DeleteReq where
  proto : Proto
  channel : Nat
  args : Bytes

namespace DeleteReq

def name (req : DeleteReq) : Bytes := copyStr 256 ((readQueueDelete req.args).elim [] Prod.fst)

def ifUnused (req : DeleteReq) : Bool := ((readQueueDelete req.args).elim 0 Prod.snd).testBit 0

def ifEmpty (req : DeleteReq) : Bool := ((readQueueDelete req.args).elim 0 Prod.snd).testBit 1

end DeleteReq

/-- What is registered under the name of the request: the queue object, whether it has no ready
message, and whether it has no consumer. -/
def Server.look (s : Server) (req : DeleteReq) : Option (QRef × Bool × Bool) :=
  (s.broker.queues.get (vkey req.proto.vhost req.name)).map fun q =>
    (qref q, q.ready.isEmpty, decide ((s.side q.gen).consumers ≤ 0))

/-- A queue with that name is registered under it. -/
def Server.Named (s : Server) (req : DeleteReq) : Prop :=
  ∀ x, s.look req = some x → x.1.key = vkey req.proto.vhost req.name

/-- The queue is there, has no consumer if it must be unused and no ready message if it must be
empty. -/
def Server.removable (s : Server) (req : DeleteReq) : Bool :=
  (s.look req).any fun x => (!req.ifUnused || x.2.2) && (!req.ifEmpty || x.2.1)

/-- A removable queue is deleted, with or without the flags. -/
theorem deleteQueue_of_removable {s : Server} {req : DeleteReq} (h : s.removable req = true) :
    (s.deleteQueue req.proto.vhost req.name req.ifUnused req.ifEmpty).1.isSome = true ∧
      (s.deleteQueue req.proto.vhost req.name false false).1.isSome = true := by
  unfold Server.removable Server.look at h
  unfold Server.deleteQueue
  cases hGet : s.broker.queues.get (vkey req.proto.vhost req.name) with
  | none => simp [hGet] at h
  | some q =>
    simp only [hGet, Option.map_some, Option.any_some] at h
    simp only [Bool.and_eq_true, Bool.or_eq_true, Bool.not_eq_true', decide_eq_true_eq,
      List.isEmpty_iff] at h
    have hUnused : ¬ (req.ifUnused && decide (0 < (s.side q.gen).consumers)) = true := by
      rw [Bool.and_eq_true, decide_eq_true_eq]
      rintro ⟨hIf, hUsed⟩
      rw [hIf] at h
      have hNone := h.1.resolve_left Bool.noConfusion
      omega
    have hEmpty : ¬ (req.ifEmpty && decide (0 < q.ready.length)) = true := by
      rw [Bool.and_eq_true, decide_eq_true_eq]
      rintro ⟨hIf, hFull⟩
      rw [hIf] at h
      rw [h.2.resolve_left Bool.noConfusion] at hFull
      exact Nat.lt_irrefl 0 hFull
    refine ⟨?_, by simp⟩
    dsimp only
    rw [if_neg hUnused, if_neg hEmpty]
    rfl

structure Deletion where
  server : Server
  /-- The protocol state in which the running callback began, and the rest of the callback. -/
  proto : Proto
  todo : Option (Proc Proto)
  /-- The number of the proposal. -/
  seq : Option Nat := none
  /-- The states in which `broker_delete_queue` removed the queue for the request. -/
  removals : List Server := []
  answered : Bool := false
  forgotten : Bool := false
  /-- The op was applied on this node. -/
  applied : Bool := false

namespace Deletion

inductive Move
  /-- The next action of the running callback, or its return. -/
  | act
  /-- An action of another callback or another thread. -/
  | other (t : Thread) (a : Act)
  /-- Proposals are decided, and time goes on. -/
  | world (verdict : Nat → ProposalStatus) (now : Nat)
  /-- `apply_op` of the proposed delete. -/
  | apply
  /-- The poll of the wait for the commit, in whatever state the connection is by then. -/
  | poll (p : Proto) (i : Nat)

def start (cfg : Cfg) (req : DeleteReq) (s : Server) : Deletion where
  server := s
  proto := req.proto
  todo := some (handleQueueDelete cfg req.proto req.channel req.args)

/-- `broker_delete_queue` ran for the request and returned `gone`. -/
def noteDelete (d : Deletion) (gone : Option Nat) : Deletion :=
  if gone.isSome then { d with removals := d.removals ++ [d.server] } else d

def note (d : Deletion) : (a : Act) → a.Ret → Deletion
  | .deleteQueue _ _ _ _ true, gone => d.noteDelete gone
  | .propose (.deleteQueue ..), seq => if seq = 0 then d else { d with seq := some seq }
  | .send _ bytes, _ => { d with answered := d.answered || isDeleteOk bytes }
  | _, _ => d

def polls (d : Deletion) (p : Proto) (i : Nat) : Bool :=
  d.todo.isNone && p.pendingOps[i]?.any fun op =>
    op.kind = .queueDeleteOk && decide (some op.seq = d.seq)

def step (cfg : Cfg) (t : Thread) (req : DeleteReq) (d : Deletion) : Move → Option Deletion
  | .act =>
    match d.todo with
    | some (.act a k) =>
      let out := a.run cfg t d.server
      some { d.note a out.1 with server := out.2, todo := some (k out.1) }
    | some (.ret q) => some { d with
        todo := none, proto := q
        forgotten := d.forgotten || decide (q.exclQueues ≠ d.proto.exclQueues) }
    | _ => none
  | .other u a => some { d with server := (a.run cfg u d.server).2 }
  | .world verdict now => some { d with server := { d.server with verdict, now } }
  | .apply =>
    if d.seq.isSome then
      let out := d.server.deleteQueue req.proto.vhost req.name false false
      some { d.noteDelete out.1 with server := out.2, applied := true }
    else none
  | .poll p i =>
    if d.polls p i then some { d with proto := p, todo := some (pendingOpTimerCb cfg p i) } else none

/-- The cluster does not report the op committed before this node has applied it. -/
def reported (d : Deletion) : Move → Bool
  | .act =>
    match d.todo with
    | some (.act (.ask (.proposalStatus seq)) _) =>
      d.server.verdict seq ≠ .committed || d.applied
    | _ => true
  | _ => true

/-- As long as the queue was not removed for the request, nothing that happens changes which object
is registered under its name, whether it has ready messages and whether it has consumers. -/
def undisturbed (req : DeleteReq) (d : Deletion) (m : Move) (d' : Deletion) : Bool :=
  (!d.removals.isEmpty || !d'.removals.isEmpty ||
    decide (d'.server.look req = d.server.look req)) && d.reported m

theorem look_of_undisturbed {req : DeleteReq} {d d' : Deletion} {m : Move}
    (h : undisturbed req d m d' = true) (hNil : d.removals = []) (hNil' : d'.removals = []) :
    d'.server.look req = d.server.look req := by
  rw [undisturbed, hNil, hNil', Bool.and_eq_true] at h
  simpa using h.1

/-! ## What the callbacks do -/

/-- What the callback has read of the queue, and whether it takes it for removed. -/
structure Glimpse where
  found : Option QRef := none
  empty : Bool := false
  unused : Bool := false
  removed : Bool := false

/-- The conditions of the request were read to be met. -/
structure Glimpse.Meets (k : Glimpse) (req : DeleteReq) : Prop where
  found : k.found.isSome = true
  unused : req.ifUnused = true → k.unused = true
  empty : req.ifEmpty = true → k.empty = true

/-- Removals and proposals are made when the conditions were read to be met, and Delete-Ok is
written when the queue counts as removed. -/
def deleteProtocol (req : DeleteReq) : Protocol Act Act.Ret Glimpse where
  may k a :=
    match a with
    | .send _ bytes => isDeleteOk bytes = true → k.removed = true
    | .deleteQueue vhost name ifUnused ifEmpty true =>
      (vhost = req.proto.vhost ∧ name = req.name ∧ ifUnused = req.ifUnused ∧
        ifEmpty = req.ifEmpty) ∧ k.Meets req
    | .propose (.deleteQueue ..) => k.Meets req
    | _ => True
  yields _ _ _ := True
  next k a r :=
    match a, r with
    | .ask (.getQueue vhost name), found =>
      if vhost = req.proto.vhost ∧ name = req.name then { found, removed := k.removed } else k
    | .ask (.depth q), n => { k with empty := decide (k.found = some q ∧ n = 0) }
    | .ask (.consumerCount q), n => { k with unused := decide (k.found = some q ∧ n ≤ 0) }
    | .ask (.proposalStatus _), st => { k with removed := k.removed || decide (st = .committed) }
    | .deleteQueue _ _ _ _ true, _ => { k with removed := true }
    | _, _ => k

variable {req : DeleteReq}

variable {a : Act} {p : Proto} {d : Deletion}

theorem may_of_silent (h : a.Silent) (k : Glimpse) : (deleteProtocol req).may k a := by
  cases a with
  | send c bytes =>
    intro hOk
    rw [show isDeleteOk bytes = false from h] at hOk
    cases hOk
  | deleteQueue _ _ _ _ wantCount =>
    cases wantCount with
    | true => cases h
    | false => trivial
  | propose op =>
    cases op with
    | deleteQueue => exact h.elim
    | _ => trivial
  | _ => trivial

theorem next_of_removed (req : DeleteReq) {k : Glimpse} (hRemoved : k.removed = true) (a : Act) (r : a.Ret) :
    ((deleteProtocol req).next k a r).removed = true := by
  unfold deleteProtocol
  dsimp only
  split
  · split <;> exact hRemoved
  · exact hRemoved
  · exact hRemoved
  · simp [hRemoved]
  · rfl
  · exact hRemoved

def OnRecord (p q : Proto) (k : Glimpse) : Prop :=
  q.exclQueues ≠ p.exclQueues → k.removed = true

theorem obeys_silent {prog : Proc Proto} (hDoes : prog.Does Act.Silent)
    (hEnds : prog.Ends fun q => q.exclQueues = p.exclQueues) (k : Glimpse) :
    (deleteProtocol req).Obeys prog k (OnRecord p) := by
  have hObeys := Protocol.obeys_of_does (P := deleteProtocol req) (I := fun _ => True) hDoes
    (fun l a _ ha => ⟨may_of_silent ha l, fun _ _ => trivial⟩) (l := k) trivial
  refine (hObeys.and_ends hEnds).mono ?_
  rintro q l ⟨hKept, -⟩ hChanged
  exact absurd hKept hChanged

/-- Once the queue counts as removed everything is allowed but removing it again. -/
theorem obeys_sendOk (p : Proto) (ch : Nat) (args : Bytes) {p₀ : Proto} {k : Glimpse}
    (hRemoved : k.removed = true) :
    (deleteProtocol req).Obeys (sendMethod cfg p ch classQueue queueDeleteOk args) k
      (OnRecord p₀) := by
  refine obeys_act (fun _ => hRemoved) fun sent _ => ?_
  have hSent := next_of_removed req hRemoved (.send p.conn _) sent
  split
  · exact fun _ => hSent
  refine Protocol.Obeys.mono (Protocol.obeys_of_does (I := fun l : Glimpse => l.removed = true)
    (silent_protoFatal p) ?_ hSent) fun _ _ h _ => h
  intro l a hl ha
  exact ⟨may_of_silent ha l, fun r _ => next_of_removed req hl a r⟩

theorem obeys_close (p : Proto) (code : Nat) (text : Bytes) (classId methodId : Nat)
    (k : Glimpse) {ch : Nat} : (deleteProtocol req).Obeys
      (sendChannelClose cfg p ch code text classId methodId) k (OnRecord p) :=
  obeys_silent (silent_sendChannelClose p ch code text classId methodId)
    (excl_sendChannelClose p ch code text classId methodId) k

/-- The handler removes the queue, or proposes to, only after it has read that the conditions are
met. -/
theorem obeys_queueDeleteNamed (hVhost : p.vhost = req.proto.vhost) (ch : Nat)
    (noWait : Bool) (k : Glimpse) : (deleteProtocol req).Obeys
      (queueDeleteNamed cfg p ch req.name req.ifUnused req.ifEmpty noWait) k (OnRecord p) := by
  have hSame : ∀ k : Glimpse, OnRecord p p k := fun _ h => absurd rfl h
  refine obeys_ask trivial fun found _ => ?_
  have hFound : (deleteProtocol req).next k (.ask (.getQueue p.vhost req.name)) found =
      { found, removed := k.removed } := if_pos ⟨hVhost, rfl⟩
  rw [hFound]
  cases found with
  | none => exact obeys_close ..
  | some r =>
    refine obeys_ask trivial fun owner _ => obeys_ask trivial fun depth _ =>
      obeys_ask trivial fun consumers _ => ?_
    have hMeets : ¬ (req.ifUnused = true ∧ 0 < consumers) → ¬ (req.ifEmpty = true ∧ 0 < depth) →
        Glimpse.Meets { found := some r, empty := decide (some r = some r ∧ depth = 0)
                        unused := decide (some r = some r ∧ consumers ≤ 0)
                        removed := k.removed } req := by
      intro hUnused hEmpty
      refine ⟨rfl, fun h => ?_, fun h => ?_⟩
      · exact decide_eq_true ⟨rfl, Int.not_lt.mp fun hPos => hUnused ⟨h, hPos⟩⟩
      · exact decide_eq_true ⟨rfl, Nat.eq_zero_of_not_pos fun hPos => hEmpty ⟨h, hPos⟩⟩
    split_ifs with hOwner hUnused hEmpty hCluster hWait hWait
    · exact obeys_close ..
    · exact obeys_close ..
    · exact obeys_close ..
    -- the op is proposed, and the answer waits for its commit
    · exact obeys_act (hMeets hUnused hEmpty) fun seq _ => hSame _
    · refine obeys_act (hMeets hUnused hEmpty) fun seq _ => ?_
      split_ifs
      · exact obeys_close ..
      · exact obeys_ask trivial fun now _ => hSame _
    -- the queue is deleted here, and the result not looked at
    · exact obeys_act ⟨⟨hVhost, rfl, rfl, rfl⟩, hMeets hUnused hEmpty⟩ fun gone _ _ => rfl
    · exact obeys_act ⟨⟨hVhost, rfl, rfl, rfl⟩, hMeets hUnused hEmpty⟩ fun gone _ =>
        obeys_sendOk _ _ _ rfl

theorem obeys_handleQueueDelete : (deleteProtocol req).Obeys
    (handleQueueDelete cfg req.proto req.channel req.args) {} (OnRecord req.proto) := by
  have hAdvance : (req.proto.advance .active).vhost = req.proto.vhost ∧
      (req.proto.advance .active).exclQueues = req.proto.exclQueues := by
    unfold Proto.advance
    split <;> exact ⟨rfl, rfl⟩
  have hRecord : ∀ q k, OnRecord (req.proto.advance .active) q k → OnRecord req.proto q k := by
    intro q k h
    unfold OnRecord at h ⊢
    rwa [hAdvance.2] at h
  unfold handleQueueDelete
  cases hRead : readQueueDelete req.args with
  | none => exact obeys_silent (silent_protoFatal _) (excl_protoFatal _) {}
  | some args =>
    obtain ⟨q, bits⟩ := args
    have hName : copyStr 256 q = req.name := by rw [DeleteReq.name, hRead]; rfl
    have hUnused : bits.testBit 0 = req.ifUnused := by rw [DeleteReq.ifUnused, hRead]; rfl
    have hEmpty : bits.testBit 1 = req.ifEmpty := by rw [DeleteReq.ifEmpty, hRead]; rfl
    dsimp only
    rw [hName, hUnused, hEmpty]
    split_ifs
    · exact obeys_close ..
    · refine Protocol.Obeys.mono ?_ hRecord
      unfold withPerm permOk
      split_ifs with hAuth
      · refine obeys_ask trivial fun ok _ => ?_
        cases ok with
        | true => exact obeys_queueDeleteNamed hAdvance.1 ..
        | false => exact obeys_close ..
      · exact obeys_queueDeleteNamed hAdvance.1 ..

theorem obeys_pendingOpTimerCb {i : Nat} {op : PendingOp}
    (hOp : p.pendingOps[i]? = some op) (hKind : op.kind = .queueDeleteOk) :
    (deleteProtocol req).Obeys (pendingOpTimerCb cfg p i) {} (OnRecord p) := by
  unfold pendingOpTimerCb
  rw [hOp]
  refine obeys_ask trivial fun st _ => obeys_ask trivial fun now _ => ?_
  split_ifs with hWait hConfirm hCommitted
  · exact fun h => absurd rfl h
  · rw [hKind] at hConfirm
    cases hConfirm
  · subst hCommitted
    unfold sendCommitted
    rw [hKind]
    exact obeys_sendOk _ _ _ rfl
  · exact obeys_close { p with pendingOps := p.pendingOps.eraseIdx i } ..

/-! ## Whole runs -/

/-- What the callback has read is still so. -/
def Glimpse.Holds (k : Glimpse) (req : DeleteReq) (s : Server) : Prop :=
  ∀ r, k.found = some r → ∃ empty unused, s.look req = some (r, empty, unused) ∧
    (k.empty = true → empty = true) ∧ (k.unused = true → unused = true)

theorem Glimpse.Holds.removable {k : Glimpse} {s : Server} (h : k.Holds req s)
    (hMeets : k.Meets req) : s.removable req = true := by
  obtain ⟨r, hFound⟩ := Option.isSome_iff_exists.mp hMeets.found
  obtain ⟨empty, unused, hLook, hEmpty, hUnused⟩ := h r hFound
  simp only [Server.removable, hLook, Option.any_some, Bool.and_eq_true, Bool.or_eq_true,
    Bool.not_eq_true']
  refine ⟨?_, ?_⟩
  · by_cases hIf : req.ifUnused = true
    · exact .inr (hUnused (hMeets.unused hIf))
    · exact .inl (Bool.not_eq_true _ ▸ hIf)
  · by_cases hIf : req.ifEmpty = true
    · exact .inr (hEmpty (hMeets.empty hIf))
    · exact .inl (Bool.not_eq_true _ ▸ hIf)

/-- What an action adds to the glimpse was read from this state. -/
theorem Glimpse.Holds.next {k : Glimpse} {s : Server} (h : k.Holds req s) (hNamed : s.Named req)
    (cfg : Cfg) (t : Thread) (a : Act) :
    ((deleteProtocol req).next k a (a.run cfg t s).1).Holds req s := by
  cases a with
  | ask q =>
    cases q with
    | getQueue vhost name =>
      show Holds (if vhost = req.proto.vhost ∧ name = req.name then _ else k) req s
      split
      · rename_i hSame
        obtain ⟨rfl, rfl⟩ := hSame
        intro r hr
        obtain ⟨q, hGet, rfl⟩ := Option.map_eq_some_iff.mp hr
        refine ⟨q.ready.isEmpty, decide ((s.side q.gen).consumers ≤ 0), ?_, nofun, nofun⟩
        rw [Server.look, show s.broker.queues.get _ = some q from hGet]
        rfl
      · exact h
    | depth q =>
      intro r hr
      obtain ⟨empty, unused, hLook, -, hUnused⟩ := h r hr
      refine ⟨empty, unused, hLook, fun hZero => ?_, hUnused⟩
      obtain ⟨hFound, hDepth⟩ := of_decide_eq_true hZero
      obtain rfl := Option.some.inj (hFound.symm.trans hr)
      -- the registered object is the one that was asked
      have hKey := hNamed _ hLook
      obtain ⟨q', hGet, hView⟩ := Option.map_eq_some_iff.mp hLook
      simp only [Prod.mk.injEq] at hView
      obtain ⟨rfl, rfl, -⟩ := hView
      have hObject : object s.broker (qref q') = some q' := by
        rw [object, live, hKey, hGet]
        exact if_pos (decide_eq_true rfl)
      rw [show ((Act.ask (.depth (qref q'))).run cfg t s).1 =
        (object s.broker (qref q')).elim 0 fun q => q.ready.length from rfl, hObject] at hDepth
      exact List.isEmpty_iff.mpr (length_eq_zero_iff.mp hDepth)
    | consumerCount q =>
      intro r hr
      obtain ⟨empty, unused, hLook, hEmpty, -⟩ := h r hr
      refine ⟨empty, unused, hLook, hEmpty, fun hZero => ?_⟩
      obtain ⟨hFound, hCount⟩ := of_decide_eq_true hZero
      obtain rfl := Option.some.inj (hFound.symm.trans hr)
      obtain ⟨q', -, hView⟩ := Option.map_eq_some_iff.mp hLook
      simp only [Prod.mk.injEq] at hView
      obtain ⟨rfl, -, rfl⟩ := hView
      exact decide_eq_true hCount
    | _ => exact h
  | deleteQueue _ _ _ _ wantCount =>
    cases wantCount with
    | true | false => exact h
  | _ => exact h

/-- The record of the deletion is true. -/
structure Sound (req : DeleteReq) (d : Deletion) : Prop where
  named : d.removals = [] → d.server.Named req
  met : d.removals ≠ [] → ∃ x ∈ d.removals, x.removable req = true
  proposed : d.seq.isSome = true → d.removals = [] → d.server.removable req = true
  applied : d.applied = true → d.removals ≠ []
  removed : d.answered = true ∨ d.forgotten = true → d.removals ≠ []
  callback : ∀ prog, d.todo = some prog → ∃ k : Glimpse, (k.removed = true → d.removals ≠ []) ∧
    (d.removals = [] → k.Holds req d.server) ∧ (deleteProtocol req).Obeys prog k (OnRecord d.proto)

theorem sound_start {s : Server} (hNamed : s.Named req) : Sound req (start cfg req s) where
  named _ := hNamed
  met h := absurd rfl h
  proposed := nofun
  applied := nofun
  removed := nofun
  callback := by
    rintro _ ⟨⟩
    exact ⟨{}, nofun, fun _ => nofun, obeys_handleQueueDelete⟩

/-- What a step may do: what is registered under the name stays as it is, or the queue is removed
in a state that meets the conditions. -/
theorem Sound.carried {d' : Deletion} (h : Sound req d)
    (hLook : d.removals = [] → d'.removals = [] → d'.server.look req = d.server.look req)
    (hRemovals : d'.removals = d.removals ∨ d'.removals = d.removals ++ [d.server] ∧
      (d.removals = [] → d.server.removable req = true))
    (hSeq : d'.seq.isSome = true → d'.removals = [] →
      d.seq.isSome = true ∨ d.server.removable req = true)
    (hApplied : d'.applied = true → d.applied = true ∨ d'.removals ≠ [])
    (hDone : d'.answered = true ∨ d'.forgotten = true →
      (d.answered = true ∨ d.forgotten = true) ∨ d'.removals ≠ [])
    (hCallback : ∀ prog, d'.todo = some prog → ∃ k : Glimpse,
      (k.removed = true → d'.removals ≠ []) ∧ (d'.removals = [] → k.Holds req d.server) ∧
        (deleteProtocol req).Obeys prog k (OnRecord d'.proto)) : Sound req d' := by
  have hNone : d'.removals = [] → d.removals = [] := by
    intro hNil
    obtain hSame | ⟨hMore, -⟩ := hRemovals
    · exact hSame ▸ hNil
    · simp [hMore] at hNil
  have hSome : d.removals ≠ [] → d'.removals ≠ [] := fun hNe hNil => hNe (hNone hNil)
  refine ⟨fun hNil => ?_, fun hNe => ?_, fun hs hNil => ?_, fun ha => ?_, fun hd => ?_, ?_⟩
  · unfold Server.Named
    rw [hLook (hNone hNil) hNil]
    exact h.named (hNone hNil)
  · obtain hSame | ⟨hMore, hMet⟩ := hRemovals
    · rw [hSame] at hNe ⊢
      exact h.met hNe
    · rw [hMore]
      by_cases hNil : d.removals = []
      · exact ⟨d.server, by simp, hMet hNil⟩
      · obtain ⟨x, hx, hxMet⟩ := h.met hNil
        exact ⟨x, mem_append_left _ hx, hxMet⟩
  · rw [Server.removable, hLook (hNone hNil) hNil]
    exact (hSeq hs hNil).elim (fun hBefore => h.proposed hBefore (hNone hNil)) id
  · exact (hApplied ha).elim (fun hBefore => hSome (h.applied hBefore)) id
  · exact (hDone hd).elim (fun hBefore => hSome (h.removed hBefore)) id
  · intro prog hProg
    obtain ⟨k, hKnown, hHolds, hObeys⟩ := hCallback prog hProg
    refine ⟨k, hKnown, fun hNil => ?_, hObeys⟩
    unfold Glimpse.Holds
    rw [hLook (hNone hNil) hNil]
    exact hHolds hNil

theorem noteDelete_rest (d : Deletion) (gone : Option Nat) :
    (d.noteDelete gone).proto = d.proto ∧ (d.noteDelete gone).todo = d.todo := by
  cases gone <;> exact ⟨rfl, rfl⟩

/-- The queue is removed, if it is still there. -/
theorem Sound.deleted {gone : Option Nat} {server : Server} {applied : Bool}
    {todo : Option (Proc Proto)} (h : Sound req d)
    (hGone : d.removals = [] → d.server.removable req = true ∧ gone.isSome = true)
    (hCallback : ∀ prog, todo = some prog →
      ∃ k, (deleteProtocol req).Obeys prog k (OnRecord d.proto)) :
    Sound req { d.noteDelete gone with server, applied, todo } := by
  -- the record has a removal, from before or of now
  have hNe : (d.noteDelete gone).removals ≠ [] := by
    cases gone with
    | none =>
      intro hNil
      cases (hGone hNil).2
    | some n => simp [noteDelete]
  refine h.carried (fun _ hNil => absurd hNil hNe) ?_ (fun _ hNil => absurd hNil hNe)
    (fun _ => .inr hNe) (fun _ => .inr hNe) fun prog hProg => ?_
  · cases gone with
    | none => exact .inl rfl
    | some n => exact .inr ⟨rfl, fun hNil => (hGone hNil).1⟩
  · obtain ⟨k, hObeys⟩ := hCallback prog hProg
    rw [(noteDelete_rest d gone).1]
    exact ⟨k, fun _ => hNe, fun hNil => absurd hNil hNe, hObeys⟩

/-- An action of the handler keeps its record true while nothing disturbs it. -/
theorem sound_act {t : Thread} {next : a.Ret → Proc Proto} (h : Sound req d)
    (hTodo : d.todo = some (.act a next)) {d' : Deletion}
    (hStep : d' = { d.note a (a.run cfg t d.server).1 with
      server := (a.run cfg t d.server).2, todo := some (next (a.run cfg t d.server).1) })
    (hQuiet : undisturbed req d .act d' = true) : Sound req d' := by
  have hLook := look_of_undisturbed hQuiet
  have hReported := (Bool.and_eq_true_iff.mp hQuiet).2
  rw [reported, hTodo] at hReported
  obtain ⟨k, hKnown, hHolds, hMay, hNext⟩ := h.callback _ hTodo
  have hAfter := hNext (a.run cfg t d.server).1 trivial
  have hHolds' : d.removals = [] →
      ((deleteProtocol req).next k a (a.run cfg t d.server).1).Holds req d.server :=
    fun hNil => (hHolds hNil).next (h.named hNil) cfg t a
  subst hStep
  -- an action that the record does not note
  have hPlain : d.note a (a.run cfg t d.server).1 = d →
      (((deleteProtocol req).next k a (a.run cfg t d.server).1).removed = true →
        d.removals ≠ []) →
      Sound req { d.note a (a.run cfg t d.server).1 with
        server := (a.run cfg t d.server).2, todo := some (next (a.run cfg t d.server).1) } := by
    intro hSame hRemoved
    rw [hSame] at hLook ⊢
    refine h.carried hLook (.inl rfl) (fun hs _ => .inl hs) .inl .inl ?_
    rintro _ ⟨⟩
    exact ⟨_, hRemoved, hHolds', hAfter⟩
  cases a with
  | deleteQueue vhost name ifUnused ifEmpty wantCount =>
    cases wantCount with
    | false => exact hPlain rfl hKnown
    | true =>
      obtain ⟨⟨rfl, rfl, rfl, rfl⟩, hMeets⟩ := hMay
      refine h.deleted (fun hNil => ?_) ?_
      · have hRemovable := (hHolds hNil).removable hMeets
        exact ⟨hRemovable, (deleteQueue_of_removable hRemovable).1⟩
      · rintro _ ⟨⟩
        exact ⟨_, hAfter⟩
  | propose op =>
    cases op with
    | deleteQueue vhost name =>
      by_cases hTaken : ((Act.propose (.deleteQueue vhost name)).run cfg t d.server).1 = 0
      · exact hPlain (if_pos hTaken) hKnown
      have hNote : d.note (.propose (.deleteQueue vhost name))
          ((Act.propose (.deleteQueue vhost name)).run cfg t d.server).1 =
          { d with seq := some ((Act.propose (.deleteQueue vhost name)).run cfg t d.server).1 } :=
        if_neg hTaken
      rw [hNote] at hLook ⊢
      -- from here on the conditions hold until the op is applied
      refine h.carried hLook (.inl rfl) (fun _ hNil => .inr ((hHolds hNil).removable hMay)) .inl
        .inl ?_
      rintro _ ⟨⟩
      exact ⟨_, hKnown, hHolds', hAfter⟩
    | _ => exact hPlain rfl hKnown
  | send c bytes =>
    refine h.carried hLook (.inl rfl) (fun hs _ => .inl hs) .inl ?_ ?_
    · rintro (hOk | hForgotten)
      · obtain hBefore | hNow := Bool.or_eq_true_iff.mp hOk
        · exact .inl (.inl hBefore)
        · exact .inr (hKnown (hMay hNow))
      · exact .inl (.inr hForgotten)
    · rintro _ ⟨⟩
      exact ⟨_, hKnown, hHolds', hAfter⟩
  | ask q =>
    cases q with
    | proposalStatus seq =>
      refine hPlain rfl fun hRemoved => ?_
      obtain hBefore | hCommitted := Bool.or_eq_true_iff.mp hRemoved
      · exact hKnown hBefore
      · obtain hOther | hApplied := Bool.or_eq_true_iff.mp hReported
        · exact absurd (of_decide_eq_true hCommitted) (of_decide_eq_true hOther)
        · exact h.applied hApplied
    | getQueue vhost name =>
      refine hPlain rfl ?_
      show Glimpse.removed (if _ then _ else k) = true → _
      split <;> exact hKnown
    | _ => exact hPlain rfl hKnown
  | _ => exact hPlain rfl hKnown

theorem sound_return {q : Proto} (h : Sound req d) (hTodo : d.todo = some (.ret q)) :
    Sound req { d with
      todo := none, proto := q
      forgotten := d.forgotten || decide (q.exclQueues ≠ d.proto.exclQueues) } := by
  obtain ⟨k, hKnown, -, hRecord⟩ := h.callback _ hTodo
  refine h.carried (fun _ _ => rfl) (.inl rfl) (fun hs _ => .inl hs) .inl ?_ nofun
  rintro (hAnswered | hForgotten)
  · exact .inl (.inl hAnswered)
  · obtain hBefore | hChanged := Bool.or_eq_true_iff.mp hForgotten
    · exact .inl (.inr hBefore)
    · exact .inr (hKnown (hRecord (of_decide_eq_true hChanged)))

/-- The op is applied: under the conditions, if the queue is still there. -/
theorem sound_apply (h : Sound req d) (hSeq : d.seq.isSome = true) : Sound req
    { d.noteDelete (d.server.deleteQueue req.proto.vhost req.name false false).1 with
      server := (d.server.deleteQueue req.proto.vhost req.name false false).2, applied := true } := by
  refine h.deleted (fun hNil => ?_) fun prog hProg => ?_
  · exact ⟨h.proposed hSeq hNil, (deleteQueue_of_removable (h.proposed hSeq hNil)).2⟩
  · obtain ⟨k, -, -, hObeys⟩ := h.callback prog ((noteDelete_rest d _).2.symm.trans hProg)
    exact ⟨k, hObeys⟩

theorem sound_poll {i : Nat} (h : Sound req d) (hPolls : d.polls p i = true) :
    Sound req { d with proto := p, todo := some (pendingOpTimerCb cfg p i) } := by
  refine h.carried (fun _ _ => rfl) (.inl rfl) (fun hs _ => .inl hs) .inl .inl ?_
  rintro _ ⟨⟩
  rw [polls, Bool.and_eq_true] at hPolls
  cases hOp : p.pendingOps[i]? with
  | none => simp [hOp] at hPolls
  | some op =>
    rw [hOp] at hPolls
    have hKind := of_decide_eq_true (Bool.and_eq_true_iff.mp hPolls.2).1
    exact ⟨{}, nofun, fun _ => nofun, obeys_pendingOpTimerCb hOp hKind⟩

theorem sound_step {t : Thread} {d' : Deletion} {m : Move} (h : Sound req d)
    (hStep : d.step cfg t req m = some d') (hQuiet : undisturbed req d m d' = true) :
    Sound req d' := by
  cases m with
  | act =>
    rw [step] at hStep
    split at hStep
    · rename_i a next hTodo
      exact sound_act h hTodo (Option.some.inj hStep).symm hQuiet
    · rename_i q hTodo
      cases hStep
      exact sound_return h hTodo
    · cases hStep
  | other | world =>
    cases hStep
    exact h.carried (look_of_undisturbed hQuiet) (.inl rfl) (fun hs _ => .inl hs) .inl .inl
      h.callback
  | apply =>
    rw [step] at hStep
    split at hStep
    · rename_i hSeq
      cases hStep
      exact sound_apply h hSeq
    · cases hStep
  | poll p i =>
    rw [step] at hStep
    split at hStep <;> cases hStep
    rename_i hPolls
    exact sound_poll h hPolls

end Deletion

open Deletion in
/-- **Delete-Ok stands for a removal under the conditions.** In every run that leaves the queue
alone until it is removed for the request, Delete-Ok and a record that is gone stand for a removal
of the queue at a moment when it met the conditions. -/
theorem deletion_honest {cfg : Cfg} {t : Thread} {req : DeleteReq} {s : Server} {d : Deletion}
    (hNamed : s.Named req) (hRun : Run.Reach (step cfg t req)
      (fun d m d' => undisturbed req d m d' = true) (start cfg req s) d)
    (hDone : d.answered = true ∨ d.forgotten = true) :
    ∃ x ∈ d.removals, x.removable req = true := by
  have hSound := hRun.invariant (P := Sound req)
    (fun _ _ _ h hStep hQuiet => sound_step h hStep hQuiet) (sound_start hNamed)
  exact hSound.met (hSound.removed hDone)

/-- An if-empty delete of the queue `q` of connection 1, which is on record there. -/
def deleteEmpty : DeleteReq where
  proto := { conn := 1, vhost := ascii "/", channels := [{ id := 1 }], exclQueues := [ascii "q"] }
  channel := 1
  args := [0, 0] ++ putShortstr (ascii "q") ++ [2]

def emptyQueue (flags : Nat) : Server where
  broker :=
    { queues := AList.insert (vkey (ascii "/") (ascii "q"))
        { vhost := ascii "/", name := ascii "q", flags, gen := 0 } ∅ }
  conns := AList.insert 1
    { worker := .worker 0, stream := { proto := deleteEmpty.proto } } ∅

def Deletion.publish (flags : Nat) : Deletion.Move :=
  .other (.worker 1) (.enqueue ⟨ascii "/", ascii "q", flags, 0⟩ ⟨[], ascii "q", [], [1], 0, 0⟩)

def Deletion.firstPoll : Deletion.Move :=
  .poll { deleteEmpty.proto with
    pendingOps := [{ seq := 1, channel := 1, kind := .queueDeleteOk, deadline := 5000 }] } 0

open Deletion in
theorem deletion_honest_undisturbed : ∃ d : Deletion,
    Run.Reach (step {} (.worker 0) deleteEmpty)
      (fun d m d' => undisturbed deleteEmpty d m d' = true)
      (start {} deleteEmpty (emptyQueue 0)) d ∧
      (d.answered = true ∧ d.forgotten = true) ∧
      ∃ x ∈ d.removals, x.removable deleteEmpty = true := by
  have hNamed : (emptyQueue 0).Named deleteEmpty := by
    intro x hx
    have hLook : (emptyQueue 0).look deleteEmpty =
        some (⟨ascii "/", ascii "q", 0, 0⟩, true, true) := by decide +kernel
    rw [hLook] at hx
    cases hx
    decide +kernel
  obtain ⟨d, hReach, hDone⟩ : ∃ d, Run.Reach (step {} (.worker 0) deleteEmpty)
      (fun d m d' => undisturbed deleteEmpty d m d' = true)
      (start {} deleteEmpty (emptyQueue 0)) d ∧ d.answered = true ∧ d.forgotten = true :=
    Run.exists_reach (replicate 7 .act) (by decide +kernel)
  exact ⟨d, hReach, hDone, deletion_honest hNamed hReach (.inl hDone.1)⟩

open Deletion in
/-- A message that arrives after the depth was read: the local delete is refused, answered with
Delete-Ok and forgotten while the queue is still there; the replicated one removes the message. -/
theorem deletion_overtaken :
    ((Run.runList (step {} (.worker 0) deleteEmpty) (start {} deleteEmpty (emptyQueue 0))
        (replicate 3 .act ++ [publish 0] ++ replicate 4 .act)).any fun d =>
      d.answered && d.forgotten && d.removals.isEmpty &&
        (d.server.broker.queues.get (vkey (ascii "/") (ascii "q"))).isSome) = true ∧
    ((Run.runList (step { cluster := true } (.worker 0) deleteEmpty)
        (start { cluster := true } deleteEmpty (emptyQueue 2))
        (replicate 7 .act ++ [publish 2, .apply, .world (fun _ => .committed) 50, firstPoll] ++
          replicate 4 .act)).any fun d =>
      d.answered && d.removals.all fun x => !x.removable deleteEmpty) = true := by
  decide +kernel

end BeaverMQ.Amqp
