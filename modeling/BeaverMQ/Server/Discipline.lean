import BeaverMQ.Server.Channels

/-!
# BeaverMQ — a rule for the callbacks of a connection

What is true of everything a connection does is shown here once. A `Conduct` is a protocol for
the actions of a thread with an invariant between the protocol state of the connection and the
local state of the thread. A `Discipline` knows besides what the checks of the handlers are good
for: a `Right` is what a handler may rely on between a check and what it allows.
-/

namespace BeaverMQ.Amqp

open List Prog

/-! ## The building blocks

The actions that the removal of a consumer and the routing of a message are made of. -/

variable {α : Type}

theorem does_act {ok : Act → Prop} {a : Act} {f : a.Ret → Proc α} (ha : ok a)
    (hf : ∀ r, (f r).Does ok) : (act a >>= f).Does ok := ⟨ha, hf⟩

theorem does_ask {ok : Act → Prop} {q : Query} {f : q.Ret → Proc α} (hq : ok (.ask q))
    (hf : ∀ r, (f r).Does ok) : (ask q >>= f).Does ok := ⟨hq, hf⟩

theorem does_last {ok : Act → Prop} {a : Act} (ha : ok a) : (act a).Does ok :=
  ⟨ha, fun _ => trivial⟩

/-! ## Taking down -/

/-- A question that is neither part of a login or a check nor about messages. -/
def Query.Plain : Query → Prop
  | .stream _ | .canAccessVhost .. | .authCheck .. | .lookupHash _ | .passwordMatches ..
  | .routeTargets .. | .deadLetterMsg .. => False
  | _ => True

/-- What taking down a consumer, a channel or a prefetch window does. -/
def Act.Teardown : Act → Prop
  | .ask q => q.Plain
  | .deleteQueue _ _ _ _ wantCount => wantCount = false
  | .consumersDec _ | .releaseUnacked _ | .markReplicated .. | .propose (.consume ..)
  | .leaveGroup _ | .removeWaiter _ | .notify _ | .unlink _ | .setPrefetch ..
  | .releaseGet .. => True
  | _ => False

/-- The part of it that deletes nothing. -/
def Act.Tidy (a : Act) : Prop := a.Teardown ∧ (a matches .deleteQueue ..) = false

variable {cfg : Cfg}

theorem does_replicateWatermark (r : QRef) : (replicateWatermark cfg r).Does Act.Tidy := by
  unfold replicateWatermark
  split
  · refine does_ask ⟨trivial, rfl⟩ fun watermark => ?_
    split
    · refine does_act ⟨trivial, rfl⟩ fun advanced => ?_
      cases advanced with
      | true => exact does_act ⟨trivial, rfl⟩ fun _ => trivial
      | false => trivial
    · trivial
  · trivial

/-- The end of `consumer_destroy`: an auto-delete queue goes with its last consumer. -/
def destroyEnd (c : Consumer) : Proc Unit := do
  if isAutoDelete c.queue.flags then
    let left ← ask (.consumerCount c.queue)
    if left = 0 then
      let _ ← act (.deleteQueue c.queue.vhost c.queue.name false false false)
      pure ()
    else pure ()
  act (.unlink c.id)

theorem does_destroyEnd (c : Consumer) : (destroyEnd c).Does Act.Teardown := by
  unfold destroyEnd
  dsimp only
  split
  · refine does_ask trivial fun left => ?_
    split
    · exact does_act rfl fun _ => does_last trivial
    · exact does_last trivial
  · exact does_last trivial

theorem does_consumerDestroy (c : Consumer) : (consumerDestroy cfg c).Does Act.Teardown := by
  unfold consumerDestroy
  refine does_act trivial fun _ => ?_
  refine does_bind (does_forM fun _ _ => does_last trivial) fun _ => ?_
  refine does_bind ((does_replicateWatermark c.queue).mono fun _ h => h.1) fun _ => ?_
  refine does_act trivial fun left => ?_
  rcases left with _ | ⟨q, _ | _⟩
  · exact does_destroyEnd c
  · exact does_act trivial fun _ => does_destroyEnd c
  · exact does_act trivial fun _ => does_destroyEnd c

theorem does_dispatcherRemoveConnection (conn : Nat) :
    (dispatcherRemoveConnection cfg conn).Does Act.Teardown := by
  refine does_ask trivial fun consumers => does_forM fun c _ => ?_
  split
  · exact does_consumerDestroy c
  · trivial

theorem does_dispatcherRemoveChannel (conn channel : Nat) :
    (dispatcherRemoveChannel cfg conn channel).Does Act.Teardown := by
  refine does_ask trivial fun consumers => does_forM fun c _ => ?_
  split
  · exact does_consumerDestroy c
  · trivial

theorem does_chanReleaseGetUnacked (c ch : Nat) : (chanReleaseGetUnacked c ch).Does Act.Tidy :=
  does_ask ⟨trivial, rfl⟩ fun _ => does_forM fun _ _ => does_last ⟨trivial, rfl⟩

theorem does_dispatcherSetPrefetch (conn channel n : Nat) :
    (dispatcherSetPrefetch conn channel n).Does Act.Tidy := by
  refine does_ask ⟨trivial, rfl⟩ fun consumers => does_forM fun c _ => ?_
  split
  · exact does_act ⟨trivial, rfl⟩ fun _ => does_last ⟨trivial, rfl⟩
  · trivial

/-! ## Moving messages -/

def Act.Routing : Act → Prop
  | .ask (.routeTargets ..) | .ask (.deadLetterMsg ..) | .enqueue .. | .wakeWaiters _ => True
  | _ => False

theorem does_deadLetter {ok : Act → Prop} {route : Bytes → Msg → Proc Int} (r : QRef) (m : Msg)
    (hAsk : ok (.ask (.deadLetterMsg r m))) (hRoute : ∀ v m, (route v m).Does ok) :
    (deadLetter route r m).Does ok := by
  refine does_ask hAsk fun dm => ?_
  cases dm with
  | none => trivial
  | some dm => exact does_bind (hRoute r.vhost dm) fun _ => trivial

theorem does_route (fuel : Nat) (v : Bytes) (m : Msg) : (route fuel v m).Does Act.Routing := by
  induction fuel generalizing v m with
  | zero => trivial
  | succ fuel ih =>
    refine does_ask trivial fun targets => ?_
    refine does_bind (does_foldlM (fun st r _ => ?_) _) fun _ => trivial
    refine does_act trivial fun out => ?_
    cases out with
    | none => trivial
    | some out =>
      refine does_bind (does_forM fun d _ => does_deadLetter r d trivial ih) fun _ => ?_
      exact does_act trivial fun _ => trivial

/-! ## Obeying a protocol -/

variable {L : Type}

theorem obeys_act {P : Protocol Act Act.Ret L} {a : Act} {f : a.Ret → Proc α} {l : L}
    {Q : α → L → Prop} (hMay : P.may l a)
    (hNext : ∀ r, P.yields l a r → P.Obeys (f r) (P.next l a r) Q) :
    P.Obeys (act a >>= f) l Q := ⟨hMay, hNext⟩

theorem obeys_ask {P : Protocol Act Act.Ret L} {q : Query} {f : q.Ret → Proc α} {l : L}
    {Q : α → L → Prop} (hMay : P.may l (.ask q))
    (hNext : ∀ r, P.yields l (.ask q) r → P.Obeys (f r) (P.next l (.ask q) r) Q) :
    P.Obeys (ask q >>= f) l Q := ⟨hMay, hNext⟩

/-! ## Rights -/

/-- What a handler may rely on between a check and what it allows. -/
inductive Right
  | granted (vhost : Bytes) (kind : AuthKind) (object : Bytes)
  | found (vhost name : Bytes) (r : QRef)
  /-- The connection took a consumer from the queue. -/
  | parted (r : QRef)
  /-- An auto-delete queue that the connection took a consumer from, and has just found without
  any. -/
  | idle (r : QRef)
  /-- The connection is or was the exclusive owner of a queue of this name. -/
  | owned (name : Bytes)

/-- The queue object was looked up by a name for which the check succeeded. -/
def Right.On (rs : List Right) (kind : AuthKind) (r : QRef) : Prop :=
  ∃ vhost name, .granted vhost kind name ∈ rs ∧ .found vhost name r ∈ rs

def ClusterOp.Allowed (granted : Bytes → AuthKind → Bytes → Prop) : ClusterOp → Prop
  | .declareQueue d => granted d.vhost .configure d.name
  | .declareExchange d => granted d.vhost .configure d.name
  | .bind r => granted r.vhost .write r.exchange ∧ granted r.vhost .read r.queue
  | .deleteQueue vhost name => granted vhost .configure name
  | .publish p => granted p.vhost .write p.exchange
  | .consume .. => True

/-- The rights `rs` are enough for the action. Confirms are sent, messages routed and the
access-control store is changed elsewhere. -/
def Act.Covered (rs : List Right) : Act → Prop
  | .ask q => q.Plain
  | .send _ bytes => isConfirm bytes = false
  | .declareQueue vhost name _ => .granted vhost .configure name ∈ rs
  | .setLimits r .. => Right.On rs .configure r
  | .setDeadLetter r .. => Right.On rs .configure r
  | .setExclusiveOwner r _ => Right.On rs .configure r
  | .declareExchange vhost name .. => .granted vhost .configure name ∈ rs
  | .bind vhost queue exchange _ =>
    .granted vhost .write exchange ∈ rs ∧ .granted vhost .read queue ∈ rs
  | .deleteQueue vhost name _ _ true => .granted vhost .configure name ∈ rs
  -- without a count: the queues of a connection or of a consumer that goes
  | .deleteQueue vhost name _ _ false =>
    .owned name ∈ rs ∨ ∃ r, .idle r ∈ rs ∧ r.vhost = vhost ∧ r.name = name
  | .enqueue .. => False
  | .addConsumer _ _ _ r .. => Right.On rs .read r
  | .dequeue r => Right.On rs .read r
  | .propose op => op.Allowed fun vhost kind object => .granted vhost kind object ∈ rs
  | .setAuth _ => False
  | _ => True

/-- The lookups of the broker and its queues. -/
def Query.Looks : Query → Prop
  | .getQueue .. | .exchangeExists .. | .depth _ | .consumerCount _ | .exclusiveOwner _ => True
  | _ => False

/-- What a check outlasts: lookups, and the steps of one declare. -/
def Act.Keeping : Act → Prop
  | .ask q => q.Looks
  | .declareQueue .. | .setLimits .. | .setDeadLetter .. => True
  | _ => False

theorem Query.Looks.plain {q : Query} (h : q.Looks) : q.Plain := by
  cases q <;> trivial

theorem Act.Tidy.covered {a : Act} (h : a.Tidy) : a.Covered [] := by
  obtain ⟨hTear, hStays⟩ := h
  cases a with
  | ask q => exact hTear
  | deleteQueue _ _ _ _ _ => cases hStays
  | propose op =>
    cases op with
    | consume _ => trivial
    | _ => exact hTear.elim
  | _ => trivial

/-! ## Conducts -/

/-- An invariant of a connection that every covered action keeps. -/
structure Conduct (P : Protocol Act Act.Ret L) where
  Inv : Proto → L → Prop
  Has : L → Right → Prop
  follows : ∀ {p q l}, p.Follows q → Inv p l → Inv q l
  acts : ∀ {p l a} {rs : List Right}, a.Covered rs → Inv p l → (∀ x ∈ rs, Has l x) →
    P.may l a ∧ ∀ r, P.yields l a r → Inv p (P.next l a r) ∧
      (a.Keeping → ∀ x ∈ rs, Has (P.next l a r) x)
  parts : ∀ {l r}, Has (P.next l (.consumersDec r) ()) (.parted r)
  lasts : ∀ {l q} (a : Act) (r : a.Ret), Has l (.parted q) → Has (P.next l a r) (.parted q)
  idle : ∀ {l r}, isAutoDelete r.flags = true → Has l (.parted r) →
    Has (P.next l (.ask (.consumerCount r)) (0 : Int)) (.idle r)

namespace Conduct

variable {P : Protocol Act Act.Ret L} (C : Conduct P) {rs : List Right} {p q : Proto}

/-- With the rights `rs` the program follows the protocol and keeps the invariant. -/
structure Keeps (rs : List Right) (prog : Proc Proto) (p : Proto) : Prop where
  obeys : ∀ l, C.Inv p l → (∀ x ∈ rs, C.Has l x) → P.Obeys prog l fun q l' => C.Inv q l'

/-- The same for a program that is run for its effect. -/
structure Serves (rs : List Right) (prog : Proc α) (p : Proto) : Prop where
  obeys : ∀ l, C.Inv p l → (∀ x ∈ rs, C.Has l x) → P.Obeys prog l fun _ => C.Inv p

variable {C} {prog : Proc Proto}

/-- A program that needs no rights. -/
theorem Keeps.run (h : C.Keeps [] prog p) {l : L} (hInv : C.Inv p l) :
    P.Obeys prog l fun q l' => C.Inv q l' := h.obeys l hInv nofun

theorem keeps_pure (h : p.Follows q) : C.Keeps rs (pure q) p :=
  ⟨fun _ hInv _ => C.follows h hInv⟩

theorem Keeps.bind {f : Proto → Proc Proto} (h : C.Keeps rs prog p)
    (hNext : ∀ q, C.Keeps [] (f q) q) : C.Keeps rs (prog >>= f) p := by
  refine ⟨fun l hInv hRights => (h.obeys l hInv hRights).bind fun q l' hInv' => ?_⟩
  exact (hNext q).run hInv'

theorem Keeps.after (hFollows : p.Follows q) (h : C.Keeps rs prog q) : C.Keeps rs prog p where
  obeys l hInv hRights := h.obeys l (C.follows hFollows hInv) hRights

theorem keeps_ite {c : Prop} [Decidable c] {prog rest : Proc Proto} (h : C.Keeps rs prog p)
    (h' : C.Keeps rs rest p) : C.Keeps rs (if c then prog else rest) p := by
  split
  · exact h
  · exact h'

theorem Keeps.mono {rs' : List Right} (h : C.Keeps rs prog p)
    (hSub : ∀ x ∈ rs, x ∈ rs') : C.Keeps rs' prog p where
  obeys l hInv hRights := h.obeys l hInv fun x hx => hRights x (hSub x hx)

theorem keeps_do {β : Type} {prog : Proc β} {f : β → Proc Proto} (h : C.Serves rs prog p)
    (hNext : ∀ x, C.Keeps [] (f x) p) : C.Keeps rs (prog >>= f) p where
  obeys l hInv hRights :=
    (h.obeys l hInv hRights).bind fun x _ hInv' => (hNext x).run hInv'

variable {a : Act} {classId methodId : Nat}

theorem keeps_act {f : a.Ret → Proc Proto} (ha : a.Covered rs)
    (hNext : ∀ r, C.Keeps [] (f r) p) : C.Keeps rs (act a >>= f) p where
  obeys _ hInv hRights := obeys_act (C.acts ha hInv hRights).1 fun r hr =>
    (hNext r).obeys _ ((C.acts ha hInv hRights).2 r hr).1 nofun

theorem keeps_step {f : a.Ret → Proc Proto} (ha : a.Covered rs) (hKeeping : a.Keeping)
    (hNext : ∀ r, C.Keeps rs (f r) p) : C.Keeps rs (act a >>= f) p where
  obeys _ hInv hRights := obeys_act (C.acts ha hInv hRights).1 fun r hr =>
    have h := (C.acts ha hInv hRights).2 r hr
    (hNext r).obeys _ h.1 (h.2 hKeeping)

theorem keeps_ask {x : Query} {f : x.Ret → Proc Proto} (hx : x.Plain)
    (hNext : ∀ r, C.Keeps [] (f r) p) : C.Keeps rs (ask x >>= f) p :=
  keeps_act (a := .ask x) hx hNext

theorem keeps_look {x : Query} {f : x.Ret → Proc Proto} (hx : x.Looks)
    (hNext : ∀ r, C.Keeps rs (f r) p) : C.Keeps rs (ask x >>= f) p :=
  keeps_step (a := .ask x) hx.plain hx hNext

/-- An action that needs no rights. -/
theorem acts_plain {l : L} (ha : a.Covered []) (hInv : C.Inv p l) :
    P.may l a ∧ ∀ r, P.yields l a r → C.Inv p (P.next l a r) :=
  have hAct := C.acts ha hInv nofun
  ⟨hAct.1, fun r hr => (hAct.2 r hr).1⟩

theorem obeys_covered {f : a.Ret → Proc α} {l : L} {Q : α → L → Prop}
    (ha : a.Covered []) (hInv : C.Inv p l) (hNext : ∀ r l', C.Inv p l' → P.Obeys (f r) l' Q) :
    P.Obeys (act a >>= f) l Q :=
  obeys_act (acts_plain ha hInv).1 fun r hr => hNext r _ ((acts_plain ha hInv).2 r hr)

theorem serves_of_does {prog : Proc α} (h : prog.Does (Act.Covered [])) : C.Serves rs prog p where
  obeys _ hInv _ := by
    exact Protocol.obeys_of_does (I := C.Inv p) h (fun l a hInv' ha => acts_plain ha hInv') hInv

theorem serves_pure (x : α) : C.Serves rs (pure x) p := ⟨fun _ hInv _ => hInv⟩

theorem Serves.bind {β : Type} {prog : Proc β} {f : β → Proc α} (h : C.Serves rs prog p)
    (hNext : ∀ x, C.Serves [] (f x) p) : C.Serves rs (prog >>= f) p where
  obeys l hInv hRights :=
    (h.obeys l hInv hRights).bind fun x l' hInv' => (hNext x).obeys l' hInv' nofun

theorem serves_act {f : a.Ret → Proc α} (ha : a.Covered rs)
    (hNext : ∀ r, C.Serves [] (f r) p) : C.Serves rs (act a >>= f) p where
  obeys _ hInv hRights := obeys_act (C.acts ha hInv hRights).1 fun r hr =>
    (hNext r).obeys _ ((C.acts ha hInv hRights).2 r hr).1 nofun

theorem serves_ite {c : Prop} [Decidable c] {prog rest : Proc α} (h : C.Serves rs prog p)
    (h' : C.Serves rs rest p) : C.Serves rs (if c then prog else rest) p := by
  split
  · exact h
  · exact h'

theorem serves_forM {β : Type} {f : β → Proc Unit} {xs : List β}
    (h : ∀ x ∈ xs, C.Serves [] (f x) p) : C.Serves rs (xs.forM f) p where
  obeys _ hInv _ :=
    Protocol.obeys_forM (I := C.Inv p) (fun l hInv' x hx => (h x hx).obeys l hInv' nofun) hInv

theorem serves_tidy {prog : Proc α} (h : prog.Does Act.Tidy) : C.Serves rs prog p :=
  serves_of_does (h.mono fun _ ha => ha.covered)

theorem keeps_of_serves (hServes : C.Serves rs prog p)
    (hEnds : prog.Ends p.Follows) : C.Keeps rs prog p where
  obeys l hInv hRights :=
    ((hServes.obeys l hInv hRights).and_ends hEnds).mono fun _ _ h => C.follows h.1 h.2

/-! ## Consumers that go -/

/-- The conduct of a connection that has taken a consumer from `r`. -/
def holding (C : Conduct P) (r : QRef) : Conduct P where
  Inv p l := C.Inv p l ∧ C.Has l (.parted r)
  Has := C.Has
  follows hFollows hInv := ⟨C.follows hFollows hInv.1, hInv.2⟩
  acts {_ _ a _} ha hInv hRights :=
    have hAct := C.acts ha hInv.1 hRights
    ⟨hAct.1, fun x hx => ⟨⟨(hAct.2 x hx).1, C.lasts a x hInv.2⟩, (hAct.2 x hx).2⟩⟩
  parts := C.parts
  lasts := C.lasts
  idle := C.idle

theorem obeys_destroyEnd (c : Consumer) {l : L} (hInv : C.Inv p l)
    (hParted : C.Has l (.parted c.queue)) : P.Obeys (destroyEnd c) l fun _ => C.Inv p := by
  have hUnlink : ∀ l', C.Inv p l' → P.Obeys (act (.unlink c.id)) l' fun _ => C.Inv p :=
    fun l' hInv' => acts_plain (a := .unlink c.id) trivial hInv'
  unfold destroyEnd
  dsimp only
  split
  · rename_i hAuto
    have hCount := acts_plain (a := .ask (.consumerCount c.queue)) trivial hInv
    refine obeys_ask hCount.1 fun left hLeft => ?_
    have hInv' := hCount.2 left hLeft
    split
    · rename_i hNone
      subst hNone
      have hCovered : (Act.deleteQueue c.queue.vhost c.queue.name false false false).Covered
          [.idle c.queue] := .inr ⟨c.queue, .head _, rfl, rfl⟩
      have hDelete := C.acts hCovered hInv' (forall_mem_singleton.mpr (C.idle hAuto hParted))
      exact obeys_act hDelete.1 fun gone hGone => hUnlink _ (hDelete.2 gone hGone).1
    · exact hUnlink _ hInv'
  · exact hUnlink l hInv

/-- **A consumer goes**: the rest is done with the right that the first action gave. -/
theorem serves_consumerDestroy (c : Consumer) : C.Serves rs (consumerDestroy cfg c) p where
  obeys l hInv _ := by
    have hDec := acts_plain (a := .consumersDec c.queue) trivial hInv
    refine obeys_act hDec.1 fun _ hYields => ?_
    have hHeld : (C.holding c.queue).Inv p (P.next l (.consumersDec c.queue) ()) :=
      ⟨hDec.2 () hYields, C.parts⟩
    have hRelease : (C.holding c.queue).Serves [] (c.unacked.forM fun _ =>
        act (.releaseUnacked c.id)) p :=
      serves_tidy (does_forM fun _ _ => does_last ⟨trivial, rfl⟩)
    refine (hRelease.obeys _ hHeld nofun).bind fun _ l₁ h₁ => ?_
    have hMark : (C.holding c.queue).Serves [] (replicateWatermark cfg c.queue) p :=
      serves_tidy (does_replicateWatermark c.queue)
    refine (hMark.obeys l₁ h₁ nofun).bind fun _ l₂ h₂ => ?_
    refine obeys_covered (C := C.holding c.queue) trivial h₂ fun left l₃ h₃ => ?_
    rcases left with _ | ⟨q, _ | _⟩
    · exact obeys_destroyEnd c h₃.1 h₃.2
    all_goals
      exact obeys_covered (C := C.holding c.queue) trivial h₃ fun _ _ h₄ =>
        obeys_destroyEnd c h₄.1 h₄.2

theorem serves_dispatcherRemoveConnection (conn : Nat) :
    C.Serves rs (dispatcherRemoveConnection cfg conn) p :=
  serves_act (a := .ask .consumers) trivial fun _ => serves_forM fun c _ =>
    serves_ite (serves_consumerDestroy c) (serves_pure ())

theorem serves_dispatcherRemoveChannel (conn channel : Nat) :
    C.Serves rs (dispatcherRemoveChannel cfg conn channel) p :=
  serves_act (a := .ask .consumers) trivial fun _ => serves_forM fun c _ =>
    serves_ite (serves_consumerDestroy c) (serves_pure ())

theorem serves_dispatcherCancel (conn channel : Nat) (tag : Bytes) :
    C.Serves rs (dispatcherCancel cfg conn channel tag) p := by
  refine serves_act (a := .ask .consumers) trivial fun consumers => ?_
  split
  · exact serves_pure ()
  · exact serves_consumerDestroy _

/-! ## Closing and sending -/

theorem serves_protoFatal (p₁ : Proto) : C.Serves rs (protoFatal cfg p₁) p := by
  unfold protoFatal protoClose connClose
  refine serves_ite (serves_pure _) (Serves.bind (serves_act trivial fun first => ?_) fun _ => ?_)
  · exact serves_ite (serves_dispatcherRemoveConnection p₁.conn) (serves_pure ())
  · exact serves_pure _

variable (p)

theorem ends_protoFatal : (protoFatal cfg p).Ends fun q => p.Follows q ∧ q.state = .closing := by
  unfold protoFatal protoClose
  split
  · rename_i hClosing
    exact ⟨.refl p, hClosing⟩
  · exact ends_bind fun _ => ⟨.closing rfl rfl rfl rfl (List.Subset.refl _) (.of_same rfl rfl), rfl⟩

theorem keeps_protoFatal : C.Keeps rs (protoFatal cfg p) p :=
  keeps_of_serves (serves_protoFatal p) ((ends_protoFatal p).mono fun _ h => h.1)

theorem covered_send (c ch : Nat) (args : Bytes) (hOther : confirms classId methodId = false) :
    (Act.send c (methodFrame ch classId methodId args)).Covered rs := by
  have h := isConfirm_methodFrame ch classId methodId args []
  rw [append_nil, hOther] at h
  exact h

theorem serves_sendMethod {p : Proto} (p₁ : Proto) (ch : Nat) (args : Bytes)
    (hOther : confirms classId methodId = false) :
    C.Serves rs (sendMethod cfg p₁ ch classId methodId args) p :=
  serves_act (covered_send _ _ _ hOther) fun _ => serves_ite (serves_pure _) (serves_protoFatal p₁)

theorem ends_sendMethod (ch classId methodId : Nat) (args : Bytes) :
    (sendMethod cfg p ch classId methodId args).Ends p.Follows := by
  refine ends_bind fun sent => ?_
  split
  · exact Proto.Follows.refl p
  · exact (ends_protoFatal p).mono fun _ h => h.1

theorem keeps_sendMethod (ch : Nat) (args : Bytes) (hOther : confirms classId methodId = false) :
    C.Keeps rs (sendMethod cfg p ch classId methodId args) p :=
  keeps_of_serves (serves_sendMethod p ch args hOther) (ends_sendMethod p _ _ _ _)

theorem keeps_sendConnectionClose (code : Nat) (text : Bytes) :
    C.Keeps rs (sendConnectionClose cfg p code text) p :=
  (keeps_sendMethod p _ _ rfl).bind keeps_protoFatal

theorem keeps_wrongVhost (vhost : Bytes) (code : Nat) (text : Bytes) :
    C.Keeps [] (sendConnectionClose cfg { p with vhost } code text) p := by
  have hServes : C.Serves [] (sendConnectionClose cfg { p with vhost } code text) p :=
    (serves_sendMethod _ _ _ rfl).bind serves_protoFatal
  have hEnds : (sendConnectionClose cfg { p with vhost } code text).Ends p.Follows := by
    refine (ends_sendMethod _ _ _ _ _).bind fun q hSent => (ends_protoFatal q).mono ?_
    rintro r ⟨hClosed, hClosing⟩
    have hAll := hSent.trans hClosed
    exact .closing hAll.conn hAll.user hAll.pendingAuth hClosing hAll.queues
      ((Proto.Drops.of_same rfl rfl).trans hAll.drops)
  exact (keeps_of_serves hServes hEnds)

theorem keeps_channelTeardown (ch : Nat) : C.Keeps rs (channelTeardown cfg p ch) p := by
  unfold channelTeardown channelRemove
  refine keeps_do (serves_dispatcherRemoveChannel p.conn ch) fun _ => ?_
  split
  · rename_i hNone
    exact keeps_pure (.of_drops rfl (.cancel hNone))
  rename_i i hSome
  exact keeps_do (serves_tidy (does_chanReleaseGetUnacked _ ch)) fun _ =>
    keeps_pure (.of_drops rfl (.remove hSome))

theorem keeps_sendChannelClose (ch code : Nat) (text : Bytes) (classId methodId : Nat) :
    C.Keeps rs (sendChannelClose cfg p ch code text classId methodId) p :=
  (keeps_sendMethod p _ _ rfl).bind fun q => keeps_channelTeardown q ch

/-- A channel exception leaves nothing of the channel. -/
theorem ends_sendChannelClose (ch code : Nat) (text : Bytes) (classId methodId : Nat) :
    (sendChannelClose cfg p ch code text classId methodId).Ends fun q => p.Distinct →
      q.channelFind ch = none ∧ ∀ op ∈ q.pendingOps, op.channel ≠ ch := by
  refine (ends_sendMethod p _ _ _ _).bind fun q hSent => ends_bind fun _ => ?_
  have hOps : ∀ op ∈ (q.cancelPendingOps ch).pendingOps, op.channel ≠ ch := fun op hop => by
    simpa using (mem_filter.mp hop).2
  unfold channelRemove
  split
  · rename_i hNone
    exact ends_pure fun _ => ⟨Proto.channelFind_eq_none_iff.mpr hNone, hOps⟩
  · rename_i i hSome
    refine ends_bind fun _ => ends_pure fun hDistinct => ⟨?_, hOps⟩
    exact Proto.channelFind_swapRemove (hSent.drops hDistinct).1 hSome rfl

/-- A check that answers a failure with the close of the channel. -/
theorem keeps_orClose {p : Proto} {c : Prop} [Decidable c] {ch code classId methodId : Nat} {text : Bytes}
    {rest : Proc Proto} (h : C.Keeps rs rest p) :
    C.Keeps rs (if c then sendChannelClose cfg p ch code text classId methodId else rest) p :=
  keeps_ite (keeps_sendChannelClose ..) h

theorem does_sendFrames (c : Nat) {fs : List Bytes} (hFrames : ∀ f ∈ fs, isConfirm f = false) :
    (sendFrames c fs).Does (Act.Covered []) := by
  induction fs with
  | nil => trivial
  | cons f fs ih =>
    refine does_act (hFrames f mem_cons_self) fun sent => ?_
    split
    · exact ih fun g hMem => hFrames g (mem_cons_of_mem f hMem)
    · trivial

theorem isConfirm_bodyFrames (ch chunk n : Nat) (body : Bytes) :
    ∀ f ∈ bodyFrames ch chunk n body, isConfirm f = false := by
  induction n generalizing body with
  | zero => exact fun f hMem => absurd hMem not_mem_nil
  | succ n ih =>
    intro f hMem
    rw [bodyFrames] at hMem
    split at hMem
    · exact absurd hMem not_mem_nil
    rcases mem_cons.mp hMem with rfl | hMem
    · exact isConfirm_frameWrite _ _ (by decide)
    · exact ih _ f hMem

theorem serves_sendContent {p : Proto} (c ch frameMax : Nat) (m : Msg) :
    C.Serves rs (sendContent c ch frameMax m) p := by
  refine serves_of_does (does_sendFrames c fun f hMem => ?_)
  rcases mem_cons.mp hMem with rfl | hMem
  · exact isConfirm_frameWrite _ _ (by decide)
  · exact isConfirm_bodyFrames _ _ _ _ f hMem

theorem keeps_answer {noWait : Prop} [Decidable noWait] (ch : Nat)
    (args : Bytes) (hOther : confirms classId methodId = false) :
    C.Keeps rs (if noWait then pure p else sendMethod cfg p ch classId methodId args) p :=
  keeps_ite (keeps_pure (.refl p)) (keeps_sendMethod p _ _ hOther)

/-! ## Guards -/

theorem keeps_withOpen {p : Proto} {rest : Proc Proto} (hRest : C.Keeps rs rest p) :
    C.Keeps rs (withOpen cfg p rest) p :=
  keeps_ite hRest (keeps_protoFatal p)

theorem keeps_withChannel {p : Proto} {ch : Nat} {rest : Proc Proto} (hRest : C.Keeps rs rest p) :
    C.Keeps rs (withChannel cfg p ch rest) p :=
  keeps_withOpen (keeps_ite (keeps_protoFatal p) hRest)

/-! ## Deferred answers -/

theorem keeps_awaitClusterCommit (ch seq classId methodId : Nat) {kind : PendingKind}
    (hKind : kind ≠ .publishConfirm) (qname : Bytes) (depth : Nat) :
    C.Keeps rs (awaitClusterCommit p ch seq classId methodId kind qname depth) p :=
  keeps_ask trivial fun _ => keeps_pure (.of_drops rfl (.push hKind))

theorem keeps_sendCommitted (op : PendingOp) : C.Keeps rs (sendCommitted cfg p op) p := by
  unfold sendCommitted
  split
  · exact keeps_sendMethod p _ _ rfl
  · refine keeps_ask trivial fun found => ?_
    cases found with
    | none => exact keeps_sendMethod p _ _ rfl
    | some r => exact keeps_ask trivial fun depth => keeps_sendMethod p _ _ rfl
  · exact keeps_sendMethod p _ _ rfl
  · exact keeps_sendMethod p _ _ rfl
  · exact keeps_pure (.refl p)

theorem keeps_pendingOpTimerCb {p : Proto} {i : Nat} {op : PendingOp} (hOp : p.pendingOps[i]? = some op)
    (hKind : op.kind ≠ .publishConfirm) : C.Keeps rs (pendingOpTimerCb cfg p i) p := by
  unfold pendingOpTimerCb
  rw [hOp]
  refine keeps_ask trivial fun st => keeps_ask trivial fun now => ?_
  refine keeps_ite (keeps_pure (.refl p)) ?_
  refine Keeps.after (q := { p with pendingOps := p.pendingOps.eraseIdx i })
    (.of_drops rfl (.erase hOp hKind)) ?_
  rw [if_neg hKind]
  exact keeps_ite (keeps_sendCommitted _ op) (keeps_sendChannelClose ..)

/-! ## The end of a publish -/

theorem keeps_sendBasicReturn (m : Msg) : C.Keeps rs (sendBasicReturn cfg p m) p := by
  refine (keeps_sendMethod p _ _ rfl).bind fun q => keeps_ask trivial fun frameMax => ?_
  exact keeps_do (serves_sendContent ..) fun _ => keeps_pure (.refl q)

theorem keeps_sendBlockedOnce : C.Keeps rs (sendBlockedOnce cfg p) p := by
  refine keeps_ite (keeps_pure (.refl p)) ?_
  exact Keeps.after (q := { p with connBlocked := true }) (.of_same rfl rfl rfl)
    (keeps_sendMethod _ _ _ rfl)

theorem keeps_publishDone : C.Keeps rs (publishDone cfg p) p := by
  have hReset : ∀ {rs} (q : Proto), C.Keeps rs (pure q.publishReset) q :=
    fun q => keeps_pure (.of_same rfl rfl rfl)
  refine Keeps.after (.advance p .active) (keeps_ask trivial fun alarm => ?_)
  refine keeps_ite ?_ (hReset _)
  refine keeps_do (serves_of_does (does_ask trivial fun _ => trivial)) fun consumes => ?_
  refine keeps_ite (hReset _) ((keeps_sendBlockedOnce _).bind fun q => ?_)
  exact keeps_act trivial fun _ => hReset q

theorem keeps_connUnblock : C.Keeps rs (connUnblock cfg p) p := by
  refine keeps_ite ?_ (keeps_pure (.refl p))
  exact Keeps.after (q := { p with connBlocked := false }) (.of_same rfl rfl rfl)
    (keeps_sendMethod _ _ _ rfl)

theorem keeps_handleTuneOk (r : Bytes) : C.Keeps rs (handleTuneOk cfg p r) p := by
  unfold handleTuneOk
  split
  · exact keeps_protoFatal p
  · exact keeps_act trivial fun _ => keeps_pure (.of_same rfl rfl rfl)

theorem keeps_handleQos (ch : Nat) (r : Bytes) : C.Keeps rs (handleQos cfg p ch r) p := by
  unfold handleQos
  split
  · exact keeps_protoFatal p
  rename_i prefetch _
  refine keeps_do (serves_tidy (does_dispatcherSetPrefetch p.conn ch prefetch)) fun _ => ?_
  refine Keeps.after (q := p.updChannel ch fun c => { c with prefetch })
    (.of_drops rfl (.updChannel p ch (fun _ => rfl) (fun _ => rfl) fun _ => rfl)) ?_
  exact keeps_sendMethod _ _ _ rfl

theorem keeps_handlePublish (ch : Nat) (r : Bytes) : C.Keeps rs (handlePublish cfg p ch r) p := by
  unfold handlePublish
  split
  · exact keeps_protoFatal p
  rename_i e k bits _
  refine Keeps.after (q := { p.publishReset with
    pubActive := true, pubMandatory := bits.testBit 0, pubChannel := ch
    pubExchange := copyStr 256 e, pubRoutingKey := copyStr 256 k }) (.of_same rfl rfl rfl) ?_
  exact keeps_ite (keeps_protoFatal _) (keeps_pure (.refl _))

theorem keeps_handleCancel (ch : Nat) (r : Bytes) : C.Keeps rs (handleCancel cfg p ch r) p := by
  unfold handleCancel
  split
  · exact keeps_protoFatal p
  · exact keeps_do (serves_dispatcherCancel p.conn ch _) fun _ =>
      keeps_answer p _ _ rfl

end Conduct

/-! ## Disciplines -/

/-- What the checks of the handlers are good for, and that messages are routed and the login
changes without harm. -/
structure Discipline (cfg : Cfg) (P : Protocol Act Act.Ret L) extends Conduct P where
  found : ∀ {l v n r}, P.yields l (.ask (.getQueue v n)) (some r) →
    Has (P.next l (.ask (.getQueue v n)) (some r)) (.found v n r)
  perm : ∀ {p l} kind object, Inv p l → p.state ≠ .closing →
    P.Obeys (permOk cfg p kind object) l fun ok l' => Inv p l' ∧
      (ok = true → Has l' (.granted p.vhost kind object)) ∧ ∀ x, Has l x → Has l' x
  -- exclusive queues: the owner was read, or has just been set
  mine : ∀ {p l v n r}, Inv p l → Has l (.found v n r) →
    Has (P.next l (.ask (.exclusiveOwner r)) p.conn) (.owned n)
  takes : ∀ {p l v n r}, Inv p l → Has l (.found v n r) →
    Has (P.next l (.setExclusiveOwner r p.conn) ()) (.owned n)
  tracks : ∀ {p l n}, Inv p l → Has l (.owned n) → Inv (p.trackExclusive n) l
  owns : ∀ {p l n}, Inv p l → n ∈ p.exclQueues → Has l (.owned n)
  -- the login; without an access-control store anybody is taken at their word
  anybody : ∀ {p l} user vhost, cfg.auth = false → Inv p l → Inv { p with user, vhost } l
  lookupHash : ∀ {p l} user pass, Inv p l → p.pendingAuth = none →
    P.may l (.ask (.lookupHash user)) ∧ ∀ r, P.yields l (.ask (.lookupHash user)) r →
      Inv { p with pendingAuth := some ⟨user, pass, r⟩ } (P.next l (.ask (.lookupHash user)) r)
  passwordMatches : ∀ {p l w stored}, Inv p l → p.pendingAuth = some w → w.stored = some stored →
    P.may l (.ask (.passwordMatches w.user stored w.pass)) ∧
      ∀ r, P.yields l (.ask (.passwordMatches w.user stored w.pass)) r →
        Inv { p with pendingAuth := none, user := if r then w.user else p.user }
          (P.next l (.ask (.passwordMatches w.user stored w.pass)) r)
  forget : ∀ {p l}, Inv p l → Inv { p with pendingAuth := none } l
  canAccessVhost : ∀ {p l} vhost, Inv p l →
    P.may l (.ask (.canAccessVhost p.user vhost)) ∧
      ∀ r, P.yields l (.ask (.canAccessVhost p.user vhost)) r →
        Inv (if r then { p with vhost } else p) (P.next l (.ask (.canAccessVhost p.user vhost)) r)
  routes : ∀ {p l v m} fuel, Inv p l → Has l (.granted v .write m.exchange) →
    P.Obeys (route fuel v m) l fun _ => Inv p
  letter : ∀ {p l} fuel r m, Inv p l → P.Obeys (deadLetter (route fuel) r m) l fun _ => Inv p

namespace Discipline

open Conduct

variable {P : Protocol Act Act.Ret L} {D : Discipline cfg P} {p : Proto}
  {rs : List Right}

/-! ## Checks -/

variable {n : Bytes}

theorem obeys_getQueue {v : Bytes} {f : Option QRef → Proc α} {l : L} {Q : α → L → Prop}
    (hInv : D.Inv p l) (hRights : ∀ x ∈ rs, D.Has l x)
    (hNext : ∀ r l', D.Inv p l' → (∀ x ∈ rs, D.Has l' x) →
      (∀ y, r = some y → D.Has l' (.found v n y)) → P.Obeys (f r) l' Q) :
    P.Obeys (ask (.getQueue v n) >>= f) l Q := by
  have hAct := D.acts (a := .ask (.getQueue v n)) trivial hInv hRights
  refine obeys_ask hAct.1 fun r hr => ?_
  refine hNext r _ (hAct.2 r hr).1 ((hAct.2 r hr).2 trivial) ?_
  rintro y rfl
  exact D.found hr

theorem keeps_getQueue {v : Bytes} {f : Option QRef → Proc Proto}
    (hNone : D.Keeps rs (f none) p) (hSome : ∀ r, D.Keeps (.found v n r :: rs) (f (some r)) p) :
    D.Keeps rs (ask (.getQueue v n) >>= f) p where
  obeys l hInv hRights := by
    refine obeys_getQueue hInv hRights fun found l' hInv' hRights' hFound => ?_
    cases found with
    | none => exact hNone.obeys l' hInv' hRights'
    | some r => exact (hSome r).obeys l' hInv' (forall_mem_cons.mpr ⟨hFound r rfl, hRights'⟩)

theorem keeps_withPerm {ch : Nat} {kind : AuthKind} {object : Bytes} {classId methodId : Nat}
    {rest : Proc Proto} (hOpen : p.Open)
    (hRest : D.Keeps (.granted p.vhost kind object :: rs) rest p) :
    D.Keeps rs (withPerm cfg p ch kind object classId methodId rest) p where
  obeys l hInv hRights := by
    refine Protocol.Obeys.bind (D.perm kind object hInv hOpen) ?_
    rintro ok l' ⟨hInv', hOk, hKept⟩
    have hRights' : ∀ x ∈ rs, D.Has l' x := fun x hx => hKept x (hRights x hx)
    cases ok with
    | true => exact hRest.obeys l' hInv' (forall_mem_cons.mpr ⟨hOk rfl, hRights'⟩)
    | false => exact (keeps_sendChannelClose ..).obeys l' hInv' hRights'

theorem keeps_active {prog : Proc Proto} (hOpen : p.Open)
    (h : (p.advance .active).state ≠ .closing → D.Keeps rs prog (p.advance .active)) :
    D.Keeps rs prog p := by
  refine Keeps.after (.advance p .active) (h ?_)
  unfold Proto.advance
  split
  · exact hOpen
  · nofun

theorem keeps_propose {op : ClusterOp} {noWait : Prop} [Decidable noWait]
    {ch code classId methodId : Nat} {text : Bytes} {kind : PendingKind} {qname : Bytes}
    {depth : Nat} (hOp : (Act.propose op).Covered rs) (hKind : kind ≠ .publishConfirm) :
    D.Keeps rs (act (.propose op) >>= fun seq : Nat =>
      if noWait then pure p
      else if seq = 0 then sendChannelClose cfg p ch code text classId methodId
      else awaitClusterCommit p ch seq classId methodId kind qname depth) p :=
  keeps_act hOp fun _ => keeps_ite (keeps_pure (.refl p))
    (keeps_orClose (keeps_awaitClusterCommit p _ _ _ _ hKind _ _))

/-! ## Connection class -/

theorem obeys_sendConnectionTune {user : Bytes} {l : L} (hInv : D.Inv { p with user } l)
    (tags : Nat) : P.Obeys (sendConnectionTune cfg p user tags) l fun q l' => D.Inv q l' := by
  have hInv' : D.Inv { p with user, userTags := tags } l :=
    D.follows (p := { p with user }) (.of_same rfl rfl rfl) hInv
  exact (keeps_sendMethod _ _ _ rfl).run hInv'

theorem keeps_handleStartOk (hNone : p.pendingAuth = none) (r : Bytes) :
    D.Keeps [] (handleStartOk cfg p r) p := by
  unfold handleStartOk
  split
  · exact keeps_protoFatal p
  rename_i resp _
  obtain ⟨user, pass⟩ := saslPlain resp
  dsimp only
  split
  · rename_i hAuth
    exact ⟨fun l hInv _ =>
      obeys_sendConnectionTune (D.anybody user p.vhost (by simpa using hAuth) hInv) 0⟩
  refine keeps_ask trivial fun fresh => ?_
  split
  · exact (keeps_sendConnectionClose ..)
  split
  · exact (keeps_sendConnectionClose ..)
  refine keeps_ask trivial fun admitted => ?_
  split
  · exact (keeps_sendConnectionClose ..)
  refine ⟨fun l hInv _ => ?_⟩
  have hLookup := D.lookupHash user pass hInv hNone
  exact obeys_ask hLookup.1 fun stored hStored => hLookup.2 stored hStored

theorem keeps_authWorkAfterCb (p : Proto) : D.Keeps [] (authWorkAfterCb cfg p) p := by
  unfold authWorkAfterCb
  split
  · exact ⟨fun l hInv _ => hInv⟩
  rename_i w hPending
  refine ⟨fun l hInv _ => ?_⟩
  have hClose : ∀ q, D.Keeps [] (sendConnectionClose cfg q 403
      (ascii "ACCESS_REFUSED - login refused")) q :=
    fun q => (keeps_sendConnectionClose q _ _)
  -- a user that does not exist fails like a wrong password
  rcases hStored : w.stored with _ | stored
  · exact (hClose _).run (D.forget hInv)
  have hMatch := D.passwordMatches hInv hPending hStored
  refine obeys_ask hMatch.1 fun matched hMatched => ?_
  have hInv' := hMatch.2 matched hMatched
  cases matched with
  | false => exact (hClose _).run hInv'
  | true =>
    have hTune := fun tags l' (h : D.Inv { p with pendingAuth := none, user := w.user } l') =>
      obeys_sendConnectionTune (p := { p with pendingAuth := none }) h tags
    simp only [if_true]
    split
    · exact obeys_covered (a := .ask _) trivial hInv' fun tags l' hInv'' => hTune tags l' hInv''
    · exact hTune 0 _ hInv'

theorem keeps_handleConnectionOpen (p : Proto) (r : Bytes) :
    D.Keeps [] (handleConnectionOpen cfg p r) p := by
  unfold handleConnectionOpen
  split
  · exact keeps_protoFatal p
  rename_i vh _
  have hOpened : ∀ l, D.Inv { p with vhost := copyStr 128 vh } l →
      P.Obeys (sendMethod cfg { p with vhost := copyStr 128 vh, connectionOpen := true } 0
        classConnection connectionOpenOk (putShortstr [])) l fun q l' => D.Inv q l' := by
    intro l hInv
    have hInv' : D.Inv { p with vhost := copyStr 128 vh, connectionOpen := true } l :=
      D.follows (p := { p with vhost := copyStr 128 vh }) (.of_same rfl rfl rfl) hInv
    exact (keeps_sendMethod _ _ _ rfl).run hInv'
  dsimp only
  split
  · exact keeps_wrongVhost ..
  by_cases hAuth : cfg.auth = true
  · simp only [hAuth, if_true]
    refine keeps_ask trivial fun found => ?_
    split
    · exact keeps_wrongVhost ..
    refine ⟨fun l hInv _ => ?_⟩
    have hAccess := D.canAccessVhost (copyStr 128 vh) hInv
    refine obeys_ask hAccess.1 fun access hAnswer => ?_
    have hInv' := hAccess.2 access hAnswer
    cases access with
    | false => exact (keeps_wrongVhost ..).run hInv'
    | true => exact hOpened _ hInv'
  · have hNoAuth : cfg.auth = false := by simpa using hAuth
    simp only [hNoAuth, Bool.false_eq_true, if_false, pure_bind, Bool.not_true]
    exact ⟨fun l hInv _ => hOpened l (D.anybody p.user (copyStr 128 vh) hNoAuth hInv)⟩

theorem keeps_handleConnection (p : Proto) (ch method : Nat) (r : Bytes) :
    D.Keeps [] (handleConnection cfg p ch method r) p := by
  unfold handleConnection
  split
  · exact keeps_protoFatal p
  split
  · exact keeps_protoFatal p
  rename_i hPending
  split
  · exact keeps_handleStartOk (by simpa using hPending) r
  split
  · exact (keeps_handleTuneOk p r)
  split
  · exact keeps_handleConnectionOpen p r
  split
  · exact ((keeps_sendMethod p _ _ rfl).bind keeps_protoFatal)
  · exact keeps_protoFatal p

/-! ## Exchange class -/

theorem keeps_exchangeDeclareNamed (p : Proto) (ch bits : Nat) (ename etype : Bytes) :
    D.Keeps [.granted p.vhost .configure ename]
      (exchangeDeclareNamed cfg p ch bits ename etype) p := by
  unfold exchangeDeclareNamed
  dsimp only
  split
  · split
    · exact keeps_answer p _ _ rfl
    · exact keeps_ask trivial fun found =>
        keeps_ite (keeps_answer p _ _ rfl) (keeps_sendChannelClose ..)
  split
  · exact keeps_sendChannelClose ..
  refine keeps_ite (keeps_propose (.head _) nofun) (keeps_act (.head _) fun created => ?_)
  cases created with
  | none => exact keeps_sendChannelClose ..
  | some _ => exact keeps_answer p _ _ rfl

theorem keeps_handleExchange (hOpen : p.Open) (ch method : Nat) (r : Bytes) :
    D.Keeps [] (handleExchange cfg p ch method r) p := by
  refine keeps_withChannel (keeps_ite ?_ (keeps_protoFatal p))
  split
  · exact keeps_protoFatal p
  · refine keeps_orClose (keeps_active hOpen fun hOpen' => ?_)
    exact keeps_withPerm hOpen' (keeps_exchangeDeclareNamed ..)

/-! ## Queue class -/

theorem keeps_queueDeclarePassive (p : Proto) (ch bits : Nat) (qname : Bytes) :
    D.Keeps rs (queueDeclarePassive cfg p ch bits qname) p := by
  refine keeps_ask trivial fun found => ?_
  cases found with
  | none => exact keeps_sendChannelClose ..
  | some r => exact keeps_ask trivial fun _ => keeps_ask trivial fun _ => keeps_answer p _ _ rfl

theorem keeps_queueDeclareCluster (p : Proto) (ch bits : Nat) (qname : Bytes) (qa : QueueArgs) :
    D.Keeps [.granted p.vhost .configure qname]
      (queueDeclareCluster cfg p ch bits qname qa) p :=
  keeps_look trivial fun _ => keeps_orClose
    (keeps_propose (show _ ∈ _ from .head _) nofun)

theorem keeps_queueDeclareOwner (p : Proto) (ch bits : Nat) (qname : Bytes) (depth : Nat) :
    D.Keeps [.granted p.vhost .configure qname]
      (queueDeclareOwner cfg p ch bits qname depth) p := by
  unfold queueDeclareOwner
  dsimp only
  refine keeps_ite (keeps_getQueue (keeps_answer p _ _ rfl) fun r => ?_) (keeps_answer p _ _ rfl)
  refine ⟨fun l hInv hRights => ?_⟩
  have hAsk := D.acts (a := .ask (.exclusiveOwner r)) trivial hInv hRights
  refine obeys_ask hAsk.1 fun owner hOwner => ?_
  obtain ⟨hInv', hKept⟩ := hAsk.2 owner hOwner
  have hRights' := hKept trivial
  split
  · exact (keeps_sendChannelClose ..).obeys _ hInv' hRights'
  rename_i hMine
  -- the name is noted once the connection is known to be the owner
  have hTracked : ∀ l', D.Inv p l' → D.Has l' (.owned qname) → P.Obeys
      (if isNoWait bits then pure (p.trackExclusive qname)
        else sendMethod cfg (p.trackExclusive qname) ch classQueue queueDeclareOk
          (declareOkArgs qname depth 0)) l' fun q l'' => D.Inv q l'' := fun l' hInv'' hOwned =>
    (keeps_answer _ _ _ rfl).run (D.tracks hInv'' hOwned)
  split
  · have hSet := D.acts (a := .setExclusiveOwner r p.conn)
      ⟨_, _, .tail _ (.head _), .head _⟩ hInv' hRights'
    refine obeys_act hSet.1 fun _ hYields => ?_
    exact hTracked _ (hSet.2 () hYields).1 (D.takes hInv' (hRights' _ (.head _)))
  · rename_i hSome
    obtain rfl : owner = p.conn := by
      by_contra hOther
      exact hMine ⟨hSome, hOther⟩
    exact hTracked _ hInv' (D.mine hInv (hRights _ (.head _)))

theorem keeps_applyQueueArgs {qname : Bytes} {rest : Proc Proto} (qa : QueueArgs)
    (hRest : D.Keeps [.granted p.vhost .configure qname] rest p) :
    D.Keeps [.granted p.vhost .configure qname] (applyQueueArgs p qname qa >>= fun _ => rest) p := by
  unfold applyQueueArgs
  split
  · -- the limits and the dead-letter exchange are set on the object that is found
    refine keeps_getQueue hRest fun r => ?_
    have hOn : Right.On [.found p.vhost qname r, .granted p.vhost .configure qname] .configure r :=
      ⟨_, _, .tail _ (.head _), .head _⟩
    have hLast : D.Keeps [.found p.vhost qname r, .granted p.vhost .configure qname] rest p :=
      hRest.mono fun _ => .tail _
    refine keeps_step hOn trivial fun _ => ?_
    dsimp only
    split
    · exact hLast
    · exact keeps_step hOn trivial fun _ => hLast
  · exact hRest

theorem keeps_queueDeclareLocal (p : Proto) (ch bits : Nat) (qname : Bytes) (qa : QueueArgs) :
    D.Keeps [.granted p.vhost .configure qname]
      (queueDeclareLocal cfg p ch bits qname qa) p := by
  refine keeps_step (.head _) trivial fun declared => ?_
  rcases declared with _ | ⟨depth, created⟩
  · exact keeps_sendChannelClose ..
  cases created with
  | true => exact keeps_applyQueueArgs qa (keeps_queueDeclareOwner ..)
  | false => exact keeps_queueDeclareOwner ..

theorem keeps_queueDeclareNamed (hOpen : p.Open) (ch bits : Nat)
    (args qname : Bytes) : D.Keeps [] (queueDeclareNamed cfg p ch bits args qname) p := by
  refine keeps_active hOpen fun hOpen' => keeps_withPerm hOpen' ?_
  refine keeps_ite (keeps_queueDeclarePassive ..) (keeps_orClose ?_)
  exact keeps_ite (keeps_queueDeclareCluster ..) (keeps_queueDeclareLocal ..)

theorem keeps_handleQueueDeclare (hOpen : p.Open) (ch : Nat) (r : Bytes) :
    D.Keeps [] (handleQueueDeclare cfg p ch r) p := by
  unfold handleQueueDeclare
  split
  · exact keeps_protoFatal p
  · refine keeps_ite (keeps_act trivial fun seq => keeps_queueDeclareNamed hOpen ..) ?_
    exact keeps_orClose (keeps_queueDeclareNamed hOpen ..)

theorem keeps_queueBindNamed (p : Proto) (ch : Nat) (qname ename key : Bytes) (noWait : Bool) :
    D.Keeps [.granted p.vhost .read qname, .granted p.vhost .write ename]
      (queueBindNamed cfg p ch qname ename key noWait) p := by
  refine keeps_look trivial fun bq => keeps_ite (keeps_look trivial fun found => ?_) ?_
  · refine keeps_orClose (keeps_propose ?_ nofun)
    exact ⟨.tail _ (.head _), .head _⟩
  · refine keeps_act ⟨.tail _ (.head _), .head _⟩ fun bound => ?_
    exact keeps_orClose (keeps_answer p _ _ rfl)

theorem keeps_handleQueueBind (hOpen : p.Open) (ch : Nat) (r : Bytes) :
    D.Keeps [] (handleQueueBind cfg p ch r) p := by
  unfold handleQueueBind
  split
  · exact keeps_protoFatal p
  · refine keeps_orClose ?_
    exact keeps_withPerm hOpen (keeps_withPerm hOpen (keeps_queueBindNamed ..))

theorem keeps_queueDeleteNamed (p : Proto) (ch : Nat) (qname : Bytes)
    (ifUnused ifEmpty noWait : Bool) : D.Keeps [.granted p.vhost .configure qname]
      (queueDeleteNamed cfg p ch qname ifUnused ifEmpty noWait) p := by
  refine keeps_look trivial fun found => ?_
  cases found with
  | none => exact keeps_sendChannelClose ..
  | some r =>
    refine keeps_look trivial fun owner => keeps_look trivial fun depth => ?_
    refine keeps_look trivial fun consumers => keeps_orClose ?_
    refine keeps_orClose (keeps_orClose ?_)
    refine keeps_ite (keeps_propose (show _ ∈ _ from .head _) nofun) ?_
    refine keeps_act (.head _) fun gone => ?_
    exact Keeps.after (q := { p with exclQueues := p.exclQueues.swapErase qname })
      (.forgets rfl (swapErase_subset _ _))
      (keeps_answer _ _ _ rfl)

theorem keeps_handleQueueDelete (hOpen : p.Open) (ch : Nat) (r : Bytes) :
    D.Keeps [] (handleQueueDelete cfg p ch r) p := by
  unfold handleQueueDelete
  split
  · exact keeps_protoFatal p
  · refine keeps_orClose (keeps_active hOpen fun hOpen' => ?_)
    exact keeps_withPerm hOpen' (keeps_queueDeleteNamed ..)

theorem keeps_handleQueue (hOpen : p.Open) (ch method : Nat) (r : Bytes) :
    D.Keeps [] (handleQueue cfg p ch method r) p := by
  refine keeps_withChannel (keeps_ite (keeps_handleQueueDeclare hOpen ..) ?_)
  refine keeps_ite (keeps_handleQueueBind hOpen ..) ?_
  exact keeps_ite (keeps_handleQueueDelete hOpen ..) (keeps_protoFatal p)

/-! ## Basic class -/

theorem serves_dispatcherAddConsumer (p : Proto) (ch : Nat) (tag : Bytes)
    (noAck : Bool) (prefetch : Nat) : D.Serves [.granted p.vhost .read n]
      (dispatcherAddConsumer p.conn ch tag p.vhost n noAck prefetch) p where
  obeys l hInv hRights := by
    refine obeys_getQueue hInv hRights fun found l' hInv' hRights' hFound => ?_
    cases found with
    | none => exact hInv'
    | some r =>
      have hRest : D.Serves [.found p.vhost n r, .granted p.vhost .read n] (do
          let new ← act (.addConsumer p.conn ch tag r noAck prefetch)
          act (.consumersInc r)
          if new then act (.addWaiter r)
          act (.notify r)
          return true) p := by
        refine serves_act ⟨_, _, .tail _ (.head _), .head _⟩ fun new => ?_
        refine serves_of_does (does_act trivial fun _ => ?_)
        dsimp only
        split
        · exact does_act trivial fun _ => does_act trivial fun _ => trivial
        · exact does_act trivial fun _ => trivial
      exact hRest.obeys l' hInv' (forall_mem_cons.mpr ⟨hFound r rfl, hRights'⟩)

theorem keeps_consumeTagged (hOpen : p.Open) (ch : Nat) (qname ctag : Bytes)
    (bits : Nat) : D.Keeps [] (consumeTagged cfg p ch qname ctag bits) p := by
  refine keeps_orClose (keeps_active hOpen fun hOpen' => ?_)
  refine keeps_withPerm hOpen' (keeps_do (serves_dispatcherAddConsumer ..) fun added => ?_)
  exact keeps_ite (keeps_protoFatal _) (keeps_answer _ _ _ rfl)

theorem keeps_handleConsume (hOpen : p.Open) (ch : Nat) (r : Bytes) :
    D.Keeps [] (handleConsume cfg p ch r) p := by
  unfold handleConsume
  split
  · exact keeps_protoFatal p
  · exact keeps_ite (keeps_act trivial fun seq => keeps_consumeTagged hOpen ..)
      (keeps_consumeTagged hOpen ..)

theorem does_dispatcherNotePull (r : QRef) (cid : Nat) :
    (dispatcherNotePull cfg r cid).Does (Act.Covered []) := by
  unfold dispatcherNotePull
  split
  · trivial
  · exact does_act trivial fun _ => (does_replicateWatermark r).mono fun _ h => h.covered

theorem keeps_getMessage (p : Proto) (ch : Nat) (r : QRef) (noAck : Bool) (m : Msg) :
    D.Keeps rs (getMessage cfg p ch r noAck m) p := by
  refine keeps_act trivial fun tag => keeps_ask trivial fun depth => ?_
  refine (keeps_sendMethod p _ _ rfl).bind fun q => keeps_ask trivial fun frameMax => ?_
  refine keeps_do (serves_sendContent ..) fun _ => keeps_ite ?_ ?_
  · exact keeps_do (serves_of_does (does_dispatcherNotePull r _)) fun _ =>
      keeps_act trivial fun _ => keeps_pure (.refl q)
  · exact keeps_act trivial fun _ => keeps_pure (.refl q)

theorem keeps_handleGet (hOpen : p.Open) (ch : Nat) (r : Bytes) :
    D.Keeps [] (handleGet cfg p ch r) p := by
  unfold handleGet
  split
  · exact keeps_protoFatal p
  refine keeps_orClose (keeps_withPerm hOpen ?_)
  refine keeps_getQueue (keeps_sendMethod p _ _ rfl) fun q => ?_
  refine keeps_act ⟨_, _, .tail _ (.head _), .head _⟩ fun got => ?_
  cases got with
  | none => exact keeps_sendMethod p _ _ rfl
  | some m => exact keeps_getMessage ..

section Settle

variable (fuel : Nat) (how : Settling)

theorem serves_letter (r : QRef) (m : Msg) {rest : Proc α} (hRest : D.Serves [] rest p) :
    D.Serves [] (deadLetter (route fuel) r m >>= fun _ => rest) p :=
  Serves.bind ⟨fun _ hInv _ => D.letter fuel r m hInv⟩ fun _ => hRest

theorem serves_settleConsumer (id n i here : Nat) :
    D.Serves [] (settleConsumer (route fuel) how id n i here) p := by
  induction n generalizing i here with
  | zero => exact serves_pure _
  | succ n ih =>
    refine serves_act (a := .ask _) trivial fun found => ?_
    cases found with
    | none => exact serves_pure _
    | some c =>
      dsimp only
      split
      · exact serves_pure _
      rename_i u _
      -- once a delivery is settled: the next one only with `multiple`
      have hDrop : D.Serves [] (do
          act (.consumeOnAck c.queue u.msg.clusterId)
          act (.dropUnacked id i (if how.rejected then .rejected else .acked))
          if how.multiple then settleConsumer (route fuel) how id n i (here + 1)
          else pure (here + 1)) p :=
        serves_act trivial fun _ => serves_act trivial fun _ =>
          serves_ite (ih i (here + 1)) (serves_pure _)
      refine serves_ite (serves_ite (serves_act trivial fun _ => ?_) ?_) (ih (i + 1) here)
      · exact serves_ite (ih i (here + 1)) (serves_pure _)
      · split
        · exact serves_letter fuel c.queue u.msg hDrop
        · exact hDrop

theorem serves_settleUnacked (conn channel : Nat) (cs : List Consumer) (settled : Nat) :
    D.Serves [] (settleUnacked (route fuel) conn channel how cs settled) p := by
  induction cs generalizing settled with
  | nil => exact serves_pure _
  | cons c cs ih =>
    refine serves_ite (ih settled) ((serves_settleConsumer fuel how c.id _ 0 0).bind fun here => ?_)
    refine serves_ite (ih settled) (serves_act trivial fun _ => ?_)
    exact serves_ite (ih (settled + here)) (serves_pure _)

theorem serves_settleGets (c ch n i settled : Nat) :
    D.Serves [] (settleGets (route fuel) how c ch n i settled) p := by
  induction n generalizing i settled with
  | zero => exact serves_pure _
  | succ n ih =>
    refine serves_act (a := .ask _) trivial fun gets => ?_
    dsimp only
    split
    · exact serves_pure _
    rename_i g _
    have hDrop : D.Serves [] (do
        act (.consumeOnAck g.queue g.msg.clusterId)
        act (.dropGet c ch i (if how.rejected then .rejected else .acked))
        if how.multiple then settleGets (route fuel) how c ch n i (settled + 1)
        else pure (settled + 1)) p :=
      serves_act trivial fun _ => serves_act trivial fun _ =>
        serves_ite (ih i (settled + 1)) (serves_pure _)
    refine serves_ite (serves_ite (serves_act trivial fun _ => ?_) ?_) (ih (i + 1) settled)
    · exact serves_ite (ih i (settled + 1)) (serves_pure _)
    · split
      · exact serves_letter fuel g.queue g.msg hDrop
      · exact hDrop

theorem keeps_settleChannel (p : Proto) (ch : Nat) :
    D.Keeps [] (settleChannel fuel p ch how) p := by
  refine keeps_ask trivial fun gets => keeps_do (serves_settleGets fuel how ..) fun got => ?_
  refine keeps_ite (keeps_do ?_ fun _ => keeps_pure (.refl p)) (keeps_pure (.refl p))
  refine serves_act (a := .ask _) trivial fun consumers => ?_
  exact (serves_settleUnacked fuel how ..).bind fun _ => serves_pure _

end Settle

theorem keeps_handleBasic (hOpen : p.Open) (fuel ch method : Nat) (r : Bytes) :
    D.Keeps [] (handleBasic cfg fuel p ch method r) p := by
  have hSettle : D.Keeps [] (handleSettle cfg fuel p ch method r) p := by
    unfold handleSettle
    split
    · exact keeps_protoFatal p
    · exact keeps_settleChannel ..
  refine keeps_withChannel (keeps_ite (keeps_handleQos ..) ?_)
  refine keeps_ite (keeps_handlePublish ..) (keeps_ite (keeps_handleConsume hOpen ..) ?_)
  refine keeps_ite (keeps_handleCancel ..) (keeps_ite (keeps_handleGet hOpen ..) ?_)
  exact keeps_ite hSettle (keeps_protoFatal p)

theorem keeps_protocolConnFree (p : Proto) : D.Keeps [] (protocolConnFree p) p where
  obeys l hInv _ := by
    unfold protocolConnFree
    have hDelete : D.Serves [] (p.exclQueues.forM fun name => do
        let _ ← act (.deleteQueue p.vhost name false false false)
        return ()) p := by
      refine serves_forM fun name hName => ⟨fun l' hInv' _ => ?_⟩
      have hCovered : (Act.deleteQueue p.vhost name false false false).Covered [.owned name] :=
        .inl (.head _)
      exact (serves_act hCovered fun _ => serves_pure ()).obeys l' hInv'
        (forall_mem_singleton.mpr (D.owns hInv' hName))
    have hRelease : D.Serves [] (p.channels.forM fun c => chanReleaseGetUnacked p.conn c.id) p :=
      serves_tidy (does_forM fun c _ => does_chanReleaseGetUnacked p.conn c.id)
    refine (hDelete.obeys l hInv nofun).bind fun _ l₁ hInv₁ => ?_
    refine (hRelease.obeys l₁ hInv₁ nofun).bind fun _ l' hInv' => ?_
    exact D.follows (p := { p with pendingAuth := none })
      (.closing rfl rfl rfl rfl (nil_subset _) (.clear rfl rfl)) (D.forget hInv')

/-! ## Channels, confirms and content -/

/-- A discipline under which channels are opened and confirms are sent. -/
structure Confirms (D : Discipline cfg P) : Prop where
  login : ∀ {p q l}, p.SameLogin q → D.Inv p l → D.Inv q l
  confirm : ∀ {p l} ch tag nack, D.Inv p l →
    P.may l (.send p.conn (confirmFrame ch tag nack)) ∧
      ∀ r, P.yields l (.send p.conn (confirmFrame ch tag nack)) r →
        D.Inv p (P.next l (.send p.conn (confirmFrame ch tag nack)) r)

namespace Confirms

variable (hD : D.Confirms)

include hD

theorem after {prog : Proc Proto} {q : Proto} (hLogin : p.SameLogin q)
    (h : D.Keeps [] prog q) : D.Keeps [] prog p :=
  ⟨fun _ hInv _ => h.run (hD.login hLogin hInv)⟩

theorem keeps_sendPublishConfirm (p : Proto) (ch tag : Nat) (nack : Bool) :
    D.Keeps [] (sendPublishConfirm cfg p ch tag nack) p where
  obeys l hInv _ := by
    have hConfirm := hD.confirm ch tag nack hInv
    refine obeys_act hConfirm.1 fun sent hSent => ?_
    split
    · exact hConfirm.2 sent hSent
    · exact (keeps_protoFatal p).run (hConfirm.2 sent hSent)

theorem keeps_opTimer (p : Proto) (i : Nat) : D.Keeps [] (pendingOpTimerCb cfg p i) p := by
  rcases hOp : p.pendingOps[i]? with _ | op
  · unfold pendingOpTimerCb
    rw [hOp]
    exact ⟨fun l hInv _ => hInv⟩
  by_cases hKind : op.kind = .publishConfirm
  · unfold pendingOpTimerCb
    rw [hOp]
    refine keeps_ask trivial fun st => keeps_ask trivial fun now => ?_
    split
    · exact ⟨fun l hInv _ => hInv⟩
    · refine hD.after (q := { p with pendingOps := p.pendingOps.eraseIdx i }) (.of_same rfl) ?_
      exact keeps_sendPublishConfirm hD ..
  · exact (keeps_pendingOpTimerCb hOp hKind)

theorem keeps_handleChannel (p : Proto) (ch method : Nat) :
    D.Keeps [] (handleChannel cfg p ch method) p := by
  unfold handleChannel withOpen
  split
  · split
    · split
      · exact keeps_protoFatal p
      · refine hD.after (q := { p with channels := p.channels ++ [{ id := ch }] }) (.of_same rfl) ?_
        exact (Keeps.after (.advance _ .channelOpen) (keeps_sendMethod _ _ _ rfl))
    split
    · exact ((keeps_channelTeardown p ch).bind fun q => keeps_sendMethod q _ _ rfl)
    split
    · exact ⟨fun l hInv _ => hInv⟩
    · exact keeps_protoFatal p
  · exact keeps_protoFatal p

theorem keeps_handleConfirm (p : Proto) (ch method : Nat) (r : Bytes) :
    D.Keeps [] (handleConfirm cfg p ch method r) p := by
  unfold handleConfirm withChannel withOpen
  split
  · split
    · exact keeps_protoFatal p
    split
    · exact keeps_protoFatal p
    split
    · exact keeps_protoFatal p
    refine hD.after (q := p.updChannel ch fun c => { c with confirmMode := true })
      (.of_same rfl) ?_
    exact (keeps_answer _ _ _ rfl)
  · exact keeps_protoFatal p

variable {l : L} {st : Stream}

theorem obeys_publishReplicated (hInv : D.Inv p l) (body : Bytes)
    (hGrant : D.Has l (.granted p.vhost .write p.pubExchange)) :
    P.Obeys (publishReplicated p body) l fun r l' => D.Inv r.2 l' := by
  have hAct := D.acts (a := .propose (.publish (p.publish body)))
    (show Act.Covered [.granted p.vhost .write p.pubExchange] _ from .head _) hInv
    (forall_mem_singleton.mpr hGrant)
  refine obeys_act hAct.1 fun seq hSeq => ?_
  have hInv' := (hAct.2 seq hSeq).1
  split
  · exact hInv'
  have hThrottle : ∀ (q : Proto) l', D.Inv q l' → P.Obeys (do
        let congested ← ask .shouldThrottle
        if congested then act (.throttleRead q.conn)
        return (true, q)) l' fun r l'' => D.Inv r.2 l'' := by
    intro q l' hInv'
    refine obeys_covered (a := .ask _) trivial hInv' fun congested l'' hInv'' => ?_
    cases congested with
    | true => exact obeys_covered trivial hInv'' fun _ l₃ hInv₃ => hInv₃
    | false => exact hInv''
  dsimp only
  split
  · exact hThrottle p _ hInv'
  · refine obeys_covered (a := .ask _) trivial hInv' fun now l' hInv'' => ?_
    exact hThrottle _ l' (hD.login (p := p) (.of_same rfl) hInv'')

theorem obeys_publishLocal (hInv : D.Inv p l) (fuel : Nat) (body : Bytes)
    (hGrant : D.Has l (.granted p.vhost .write p.pubExchange)) :
    P.Obeys (publishLocal cfg fuel p body) l fun q l' => D.Inv q l' := by
  refine (D.routes (m := (p.publish body).message 0) fuel hInv hGrant).bind
    fun routed l' hInv' => ?_
  have hReturn : ∀ (q : Proto) l', D.Inv q l' →
      P.Obeys (if (q.pubMandatory && decide (routed = 0)) = true
        then sendBasicReturn cfg q ((p.publish body).message 0) else pure q) l'
        fun q l' => D.Inv q l' := by
    intro q l' hInv'
    split
    · exact (keeps_sendBasicReturn q _).run hInv'
    · exact hInv'
  dsimp only
  split
  · exact hReturn p l' hInv'
  refine (Keeps.run ?_ hInv').bind hReturn
  exact hD.after (q := p.updChannel p.pubChannel fun c =>
    { c with confirmSeq := c.confirmSeq + 1 }) (.of_same rfl)
    (keeps_sendPublishConfirm hD ..)

theorem keeps_finalizePublish (hOpen : p.Open) (fuel : Nat) (body : Bytes) :
    D.Keeps [] (finalizePublish cfg fuel p body) p where
  obeys l hInv _ := by
    have hClose : ∀ (q : Proto) code text l', D.Inv q l' → P.Obeys (do
        let q ← sendChannelClose cfg q q.pubChannel code text classBasic basicPublish
        return q.publishReset) l' fun q l' => D.Inv q l' := fun q code text l' hInv' =>
      ((keeps_sendChannelClose q ..).bind fun q =>
        keeps_pure (.of_same (q := q.publishReset) rfl rfl rfl)).run hInv'
    unfold finalizePublish
    refine Protocol.Obeys.bind (D.perm .write p.pubExchange hInv hOpen) ?_
    rintro ok l₁ ⟨hInv₁, hOk, -⟩
    cases ok with
    | false => exact hClose p _ _ l₁ hInv₁
    | true =>
      rw [if_neg (by decide : ¬ (!true) = true)]
      split
      · refine (obeys_publishReplicated hD hInv₁ body (hOk rfl)).bind ?_
        rintro ⟨replicated, q⟩ l₂ hInv₂
        cases replicated with
        | true => exact (keeps_publishDone q).run hInv₂
        | false => exact hClose q _ _ l₂ hInv₂
      · refine (obeys_publishLocal hD hInv₁ fuel body (hOk rfl)).bind fun q l₂ hInv₂ => ?_
        exact (keeps_publishDone q).run hInv₂

theorem keeps_handleContentHeader (hOpen : p.Open) (fuel : Nat) (f : Frame) :
    D.Keeps [] (handleContentHeader cfg fuel p f) p := by
  unfold handleContentHeader
  split
  · exact keeps_protoFatal p
  split
  · exact keeps_protoFatal p
  split
  · exact keeps_protoFatal p
  rename_i size props _ _
  refine hD.after (q := { p with pubProps := props, pubBodySize := size, pubHaveHeader := true })
    (.of_same rfl) ?_
  dsimp only
  split
  · exact keeps_finalizePublish hD (by exact hOpen) fuel []
  · exact ⟨fun l hInv _ => hInv⟩

theorem keeps_handleContentBody (hOpen : p.Open) (fuel : Nat) (f : Frame) :
    D.Keeps [] (handleContentBody cfg fuel p f) p := by
  unfold handleContentBody
  split
  · exact keeps_protoFatal p
  split
  · exact keeps_protoFatal p
  split
  · exact keeps_finalizePublish hD hOpen fuel f.payload
  refine hD.after (q := { p with pubBody := some (p.pubBody.getD [] ++ f.payload) })
    (.of_same rfl) ?_
  dsimp only
  split
  · exact keeps_finalizePublish hD (by exact hOpen) fuel _
  · exact ⟨fun l hInv _ => hInv⟩

/-! ## Dispatch and callbacks -/

theorem keeps_handleMethod (hOpen : p.Open) (fuel ch : Nat) (payload : Bytes) :
    D.Keeps [] (handleMethod cfg fuel p ch payload) p := by
  unfold handleMethod
  split
  · exact keeps_protoFatal p
  split
  · exact keeps_protoFatal p
  split
  · exact keeps_handleConnection ..
  split
  · exact keeps_handleChannel hD ..
  split
  · exact (keeps_handleExchange hOpen ..)
  split
  · exact (keeps_handleQueue hOpen ..)
  split
  · exact (keeps_handleBasic hOpen ..)
  split
  · exact keeps_handleConfirm hD ..
  · exact keeps_protoFatal p

theorem keeps_dispatchFrame (hOpen : p.Open) (fuel : Nat) (f : Frame) :
    D.Keeps [] (dispatchFrame cfg fuel p f) p := by
  unfold dispatchFrame
  split
  · split
    · split
      · exact keeps_protoFatal p
      · exact keeps_handleContentHeader hD hOpen fuel f
    split
    · exact keeps_protoFatal p
    · exact keeps_handleContentBody hD hOpen fuel f
  split
  · exact keeps_handleMethod hD hOpen ..
  split
  · exact ⟨fun l hInv _ => hInv⟩
  · exact keeps_protoFatal p

omit hD in
theorem obeys_update {prog : Proc Proto} (h : D.Keeps [] prog p) {put : Proto → α}
    {get : α → Proto} (hGet : ∀ q, get (put q) = q) (hInv : D.Inv p l) :
    P.Obeys (prog >>= fun q => pure (put q)) l fun x l' => D.Inv (get x) l' := by
  refine (h.run hInv).bind fun q l' hInv' => ?_
  show D.Inv (get (put q)) l'
  rw [hGet]
  exact hInv'

/-- The frame loop: the induction is on its rounds, and a closing connection takes no frame. -/
theorem obeys_frameLoop (fuel n : Nat) (hInv : D.Inv st.proto l) :
    P.Obeys (frameLoop cfg fuel n st) l fun st' l' => D.Inv st'.proto l' := by
  induction n generalizing st l with
  | zero => exact hInv
  | succ n ih =>
    have hFatal : P.Obeys (protoFatal cfg st.proto >>= fun q => pure { st with proto := q }) l
        fun st' l' => D.Inv st'.proto l' :=
      obeys_update (keeps_protoFatal _) (fun _ => rfl) hInv
    unfold frameLoop
    split
    · exact hInv
    rename_i hOpen
    split
    · exact hInv
    · exact hFatal
    · split
      · exact hFatal
      · exact ((keeps_dispatchFrame hD hOpen fuel _).run hInv).bind
          fun q l' hInv' => ih hInv'

theorem obeys_onData (fuel : Nat) (hInv : D.Inv st.proto l) (data : Bytes) :
    P.Obeys (onData cfg fuel st data) l fun st' l' => D.Inv st'.proto l' := by
  unfold onData
  split
  · exact hInv
  refine Protocol.Obeys.bind (Q := fun r l' => D.Inv r.2.proto l') ?_ ?_
  · unfold greeting
    split
    · exact hInv
    split
    · exact hInv
    split
    · refine obeys_covered (show isConfirm protocolHeader = false by decide) hInv ?_
      exact fun _ l' hInv' => obeys_update (keeps_protoFatal _) (fun _ => rfl) hInv'
    · refine obeys_update ?_ (fun _ => rfl) hInv
      exact Keeps.after (.advance st.proto .handshake) (keeps_sendMethod _ _ _ rfl)
  · rintro ⟨go, st'⟩ l' hInv'
    cases go with
    | true => exact obeys_frameLoop hD fuel _ hInv'
    | false => exact hInv'

/-- **Every callback of a connection** follows the protocol and keeps the invariant. -/
theorem obeys_connCallback (fuel : Nat) (hInv : D.Inv st.proto l) (e : ConnEvent) :
    P.Obeys (connCallback cfg fuel st e) l fun st' l' => D.Inv st'.proto l' := by
  cases e with
  | data bytes => exact obeys_onData hD fuel hInv bytes
  | authDone => exact obeys_update (keeps_authWorkAfterCb _) (fun _ => rfl) hInv
  | opTimer i => exact obeys_update (keeps_opTimer hD _ i) (fun _ => rfl) hInv
  | unblock => exact obeys_update (keeps_connUnblock _) (fun _ => rfl) hInv
  | closed => exact obeys_update (keeps_protocolConnFree _) (fun _ => rfl) hInv

end Confirms

end Discipline

end BeaverMQ.Amqp
