import BeaverMQ.Server.Discipline

/-!
# BeaverMQ — the authorization gate of a connection

Whatever a client sends and however its bytes interleave with the ends of password
verifications, the connection acts on queues and exchanges only for a user whose password was
verified on it, right after the access-control store said yes. Each action may be answered by
any server at all whose store has no permission row for the empty user name.

A `Session` is what can be told from the actions of the connection and their answers. A
permission check counts within the callback that made it, and only until the connection does
anything but look objects up. What is not checked are the deletions that belong to the life of a
queue: an exclusive one goes with its owner, an auto-delete one with its last consumer.
-/

namespace BeaverMQ.Amqp

open List Prog

/-! ## Sessions -/

structure Session where
  conn : Nat
  /-- The password hashes read from the store. -/
  looked : List (Bytes × Bytes) := []
  /-- The users whose password was verified, and the last of them. -/
  verified : List Bytes := []
  user : Bytes := []
  /-- The last virtual host with access. -/
  vhost : Bytes := []
  /-- User, virtual host, kind and object of the checks that still count. -/
  grants : List (Bytes × Bytes × AuthKind × Bytes) := []
  /-- The queues that were looked up since, and those of them without a consumer. -/
  found : List (Bytes × Bytes × QRef) := []
  deserted : List QRef := []
  /-- The queues that the connection took a consumer from. -/
  parted : List QRef := []
  /-- The names of the queues that it is or was the exclusive owner of. -/
  owned : List Bytes := []
  /-- The dead letters made, and the queues they and the published messages go to. -/
  letters : List (Bytes × Msg) := []
  targets : List (QRef × Msg) := []

/-- What a check outlasts: other checks, lookups, and the steps of one declare. -/
def Act.outlasted : Act → Bool
  | .ask (.authCheck ..) => true
  | .ask (.getQueue ..) => true
  | .ask (.exchangeExists ..) => true
  | .ask (.depth _) => true
  | .ask (.consumerCount _) => true
  | .ask (.exclusiveOwner _) => true
  | .declareQueue .. => true
  | .setLimits .. => true
  | .setDeadLetter .. => true
  | _ => false

namespace Session

variable (s : Session)

/-- The access-control store said yes for the current user, who has been verified. -/
def Granted (vhost : Bytes) (kind : AuthKind) (object : Bytes) : Prop :=
  vhost = s.vhost ∧ s.user ∈ s.verified ∧ (s.user, vhost, kind, object) ∈ s.grants

/-- The queue object was looked up by a name for which the check succeeded. -/
def GrantedOn (kind : AuthKind) (r : QRef) : Prop :=
  ∃ vhost name, (vhost, name, r) ∈ s.found ∧ s.Granted vhost kind name

/-- The connection owns the object, under each name it was looked up by. -/
def own (r : QRef) : Session :=
  { s with owned := (s.found.filter fun x => x.2.2 = r).map (fun x => x.2.1) ++ s.owned }

def learn : (a : Act) → a.Ret → Session
  | .ask (.lookupHash user), some hash => { s with looked := (user, hash) :: s.looked }
  | .ask (.passwordMatches user _ _), true => { s with verified := user :: s.verified, user }
  | .ask (.canAccessVhost _ vhost), true => { s with vhost }
  | .ask (.authCheck user vhost kind object), true =>
    { s with grants := (user, vhost, kind, object) :: s.grants }
  | .ask (.getQueue vhost name), some r => { s with found := (vhost, name, r) :: s.found }
  | .ask (.consumerCount r), left =>
    if left = (0 : Int) then { s with deserted := r :: s.deserted } else s
  | .ask (.exclusiveOwner r), owner => if owner = s.conn then s.own r else s
  | .ask (.deadLetterMsg r _), some m => { s with letters := (r.vhost, m) :: s.letters }
  | .ask (.routeTargets _ m), rs => { s with targets := rs.map (·, m) ++ s.targets }
  | .consumersDec r, _ => { s with parted := r :: s.parted }
  | .setExclusiveOwner r c, _ => if c = s.conn then s.own r else s
  | _, _ => s

/-- Nothing that was checked or looked up counts any more. -/
def cleared : Session := { s with grants := [], found := [], deserted := [] }

def next (a : Act) (r : a.Ret) : Session :=
  bif a.outlasted then s.learn a r else (s.learn a r).cleared

/-- The session at the start of a callback. -/
def fresh : Session := { s.cleared with letters := [], targets := [] }

/-- **The gate.** CONFIGURE for declare and delete, WRITE on the exchange and READ on the queue
for bind, WRITE on the exchange for publish, READ on the queue for consume and get. A message
is routed if it may be published or is a dead letter. Without a count, `broker_delete_queue` is
called under the name of a queue that the connection owns, or for an auto-delete queue that it
took a consumer from and then found without any. -/
def May : Act → Prop
  | .ask (.passwordMatches user hash _) => (user, hash) ∈ s.looked
  | .ask (.routeTargets vhost m) => s.Granted vhost .write m.exchange ∨ (vhost, m) ∈ s.letters
  | .declareQueue vhost name _ => s.Granted vhost .configure name
  | .setLimits r _ _ _ => s.GrantedOn .configure r
  | .setDeadLetter r _ _ => s.GrantedOn .configure r
  | .setExclusiveOwner r _ => s.GrantedOn .configure r
  | .declareExchange vhost name _ _ => s.Granted vhost .configure name
  | .bind vhost queue exchange _ => s.Granted vhost .write exchange ∧ s.Granted vhost .read queue
  | .deleteQueue vhost name _ _ true => s.Granted vhost .configure name
  | .deleteQueue vhost name _ _ false =>
    name ∈ s.owned ∨ ∃ r, (r ∈ s.deserted ∧ r ∈ s.parted ∧ isAutoDelete r.flags = true) ∧
      r.vhost = vhost ∧ r.name = name
  | .enqueue r m => (r, m) ∈ s.targets
  | .addConsumer _ _ _ r _ _ => s.GrantedOn .read r
  | .dequeue r => s.GrantedOn .read r
  | .propose op => op.Allowed s.Granted
  | .setAuth _ => False
  | _ => True

end Session

open Session

def Server.NoEmptyUser (s : Server) : Prop := ∀ vhost, s.auth.perms.get ([], vhost) = none

/-- The gate as a protocol: an action may be answered by any server. -/
def gate (cfg : Cfg) (t : Thread) : Protocol Act Act.Ret Session where
  may := May
  yields _ a r := ∃ s : Server, s.NoEmptyUser ∧ r = (a.run cfg t s).1
  next := next

/-! ## Actions and the login -/

/-- An action that is not part of the login. -/
def Act.Free : Act → Prop
  | .ask (.lookupHash _) => False
  | .ask (.passwordMatches ..) => False
  | .ask (.canAccessVhost ..) => False
  | _ => True

theorem Act.Covered.free {a : Act} {rs : List Right} (ha : a.Covered rs) : a.Free := by
  cases a with
  | ask q => cases q <;> trivial
  | _ => trivial

/-- The same login, and nothing forgotten that is there to stay. -/
structure Session.Extends (s s' : Session) : Prop where
  conn : s'.conn = s.conn
  looked : s'.looked = s.looked
  verified : s'.verified = s.verified
  user : s'.user = s.user
  vhost : s'.vhost = s.vhost
  parted : s.parted ⊆ s'.parted
  owned : s.owned ⊆ s'.owned
  letters : s.letters ⊆ s'.letters
  targets : s.targets ⊆ s'.targets

/-- The same with what was checked and looked up. -/
structure Session.Grows (s s' : Session) : Prop extends Extends s s' where
  grants : s.grants ⊆ s'.grants
  found : s.found ⊆ s'.found
  deserted : s.deserted ⊆ s'.deserted

namespace Session

variable {s s' s'' : Session} {rs : List Right} {a : Act}

theorem Extends.refl (s : Session) : s.Extends s :=
  ⟨rfl, rfl, rfl, rfl, rfl, .refl _, .refl _, .refl _, .refl _⟩

theorem Extends.trans (h : s.Extends s') (h' : s'.Extends s'') : s.Extends s'' :=
  ⟨h'.conn.trans h.conn, h'.looked.trans h.looked, h'.verified.trans h.verified,
    h'.user.trans h.user, h'.vhost.trans h.vhost, List.Subset.trans h.parted h'.parted,
    List.Subset.trans h.owned h'.owned, List.Subset.trans h.letters h'.letters,
    List.Subset.trans h.targets h'.targets⟩

theorem Grows.refl (s : Session) : s.Grows s := ⟨.refl s, .refl _, .refl _, .refl _⟩

theorem grows_own (s : Session) (r : QRef) : s.Grows (s.own r) :=
  ⟨⟨rfl, rfl, rfl, rfl, rfl, .refl _, subset_append_right _ _, .refl _, .refl _⟩,
    .refl _, .refl _, .refl _⟩

/-- **Outside the login a session only learns.** -/
theorem grows_learn (hFree : a.Free) (r : a.Ret) : s.Grows (s.learn a r) := by
  have hBase := Extends.refl s
  cases a with
  | ask q =>
    cases q with
    | lookupHash | passwordMatches | canAccessVhost => cases hFree
    | authCheck user vhost kind object =>
      cases r with
      | true => exact ⟨{ hBase with }, subset_cons_self _ _, .refl _, .refl _⟩
      | false => exact .refl s
    | getQueue vhost name =>
      cases r with
      | some r => exact ⟨{ hBase with }, .refl _, subset_cons_self _ _, .refl _⟩
      | none => exact .refl s
    | consumerCount q =>
      show s.Grows (if r = (0 : Int) then { s with deserted := q :: s.deserted } else s)
      split
      · exact ⟨{ hBase with }, .refl _, .refl _, subset_cons_self _ _⟩
      · exact .refl s
    | exclusiveOwner q =>
      show s.Grows (if r = s.conn then s.own q else s)
      split
      · exact grows_own s q
      · exact .refl s
    | deadLetterMsg q m =>
      cases r with
      | some m => exact ⟨{ hBase with letters := subset_cons_self _ _ }, .refl _, .refl _, .refl _⟩
      | none => exact .refl s
    | routeTargets vhost m =>
      exact ⟨{ hBase with targets := subset_append_right _ _ }, .refl _, .refl _, .refl _⟩
    | _ => exact .refl s
  | consumersDec q =>
    exact ⟨{ hBase with parted := subset_cons_self _ _ }, .refl _, .refl _, .refl _⟩
  | setExclusiveOwner q c =>
    show s.Grows (if c = s.conn then s.own q else s)
    split
    · exact grows_own s q
    · exact .refl s
  | _ => exact .refl s

theorem extends_cleared (s : Session) : s.Extends s.cleared := { Extends.refl s with }

theorem extends_next (hFree : a.Free) (r : a.Ret) : s.Extends (s.next a r) := by
  have hLearn := (grows_learn (s := s) hFree r).toExtends
  unfold next
  cases a.outlasted with
  | true => exact hLearn
  | false => exact hLearn.trans (extends_cleared _)

theorem parted_next (a : Act) (r : a.Ret) : s.parted ⊆ (s.next a r).parted := by
  by_cases hFree : a.Free
  · exact (extends_next hFree r).parted
  cases a with
  | ask q =>
    cases q with
    | lookupHash user => cases r <;> exact .refl _
    | passwordMatches user hash pass => cases r <;> exact .refl _
    | canAccessVhost user vhost => cases r <;> exact .refl _
    | _ => exact absurd trivial hFree
  | _ => exact absurd trivial hFree

def Has (s : Session) : Right → Prop
  | .granted vhost kind object => s.Granted vhost kind object
  | .found vhost name r => (vhost, name, r) ∈ s.found
  | .parted r => r ∈ s.parted
  | .idle r => r ∈ s.deserted ∧ r ∈ s.parted ∧ isAutoDelete r.flags = true
  | .owned name => name ∈ s.owned

theorem Has.mono {x : Right} (hGrows : s.Grows s') (hx : s.Has x) : s'.Has x := by
  cases x with
  | granted _ _ _ =>
    obtain ⟨hVhost, hVerified, hGrant⟩ := hx
    unfold Has Granted
    rw [hGrows.vhost, hGrows.user, hGrows.verified]
    exact ⟨hVhost, hVerified, hGrows.grants hGrant⟩
  | found _ _ _ => exact hGrows.found hx
  | parted _ => exact hGrows.parted hx
  | idle _ => exact ⟨hGrows.deserted hx.1, hGrows.parted hx.2.1, hx.2.2⟩
  | owned _ => exact hGrows.owned hx

theorem grantedOn {kind : AuthKind} {r : QRef} (hOn : Right.On rs kind r)
    (hRights : ∀ x ∈ rs, s.Has x) : s.GrantedOn kind r := by
  obtain ⟨vhost, name, hGrant, hFound⟩ := hOn
  exact ⟨vhost, name, hRights _ hFound, hRights _ hGrant⟩

theorem may_covered (ha : a.Covered rs) (hRights : ∀ x ∈ rs, s.Has x) : s.May a := by
  cases a with
  | ask q =>
    cases q with
    | passwordMatches | routeTargets => cases ha
    | _ => trivial
  | declareQueue _ _ _ => exact hRights _ ha
  | setLimits | setDeadLetter | setExclusiveOwner => exact grantedOn ha hRights
  | declareExchange _ _ _ _ => exact hRights _ ha
  | bind _ _ _ _ => exact ⟨hRights _ ha.1, hRights _ ha.2⟩
  | deleteQueue vhost name _ _ wantCount =>
    cases wantCount with
    | true => exact hRights _ ha
    | false =>
      rcases ha with hOwned | ⟨r, hIdle, hKey⟩
      · exact .inl (hRights _ hOwned)
      · exact .inr ⟨r, hRights _ hIdle, hKey⟩
  | enqueue _ _ => cases ha
  | addConsumer | dequeue => exact grantedOn ha hRights
  | propose op =>
    cases op with
    | bind _ => exact ⟨hRights _ ha.1, hRights _ ha.2⟩
    | consume _ => trivial
    | _ => exact hRights _ ha
  | setAuth _ => cases ha
  | _ => trivial

theorem has_next (ha : a.Covered rs) (hKeeping : a.Keeping) (r : a.Ret) {x : Right}
    (hx : s.Has x) : (s.next a r).Has x := by
  have hOutlasted : a.outlasted = true := by
    cases a with
    | ask q => cases q <;> first | rfl | exact hKeeping.elim
    | declareQueue | setLimits | setDeadLetter => rfl
    | _ => exact hKeeping.elim
  rw [next, hOutlasted]
  exact hx.mono (grows_learn ha.free r)

theorem mem_own {vhost name : Bytes} {r : QRef} (hFound : (vhost, name, r) ∈ s.found) :
    name ∈ (s.own r).owned :=
  mem_append_left _ (mem_map.mpr ⟨_, mem_filter.mpr ⟨hFound, decide_eq_true rfl⟩, rfl⟩)

end Session

/-! ## Messages -/

section Routes

variable {cfg : Cfg} {t : Thread}

theorem gate_deadLetter {route : Bytes → Msg → Proc Int} {s₀ : Session}
    (hRoute : ∀ {v m s}, s₀.Extends s → (v, m) ∈ s.letters →
      (gate cfg t).Obeys (route v m) s fun _ => s₀.Extends) {s : Session} (hExt : s₀.Extends s)
    (r : QRef) (m : Msg) : (gate cfg t).Obeys (deadLetter route r m) s fun _ => s₀.Extends := by
  refine obeys_ask trivial fun dm _ => ?_
  have hExt' := hExt.trans (extends_next (a := .ask (.deadLetterMsg r m)) trivial dm)
  cases dm with
  | none => exact hExt'
  | some dm => exact (hRoute hExt' mem_cons_self).bind fun _ _ h => h

theorem gate_route (fuel : Nat) {v : Bytes} {m : Msg} {s₀ s : Session} (hExt : s₀.Extends s)
    (hMay : s.Granted v .write m.exchange ∨ (v, m) ∈ s.letters) :
    (gate cfg t).Obeys (route fuel v m) s fun _ => s₀.Extends := by
  induction fuel generalizing v m s₀ s with
  | zero => trivial
  | succ fuel ih =>
    refine obeys_ask hMay fun targets _ => ?_
    have hExt₁ := hExt.trans (extends_next (a := .ask (.routeTargets v m)) trivial targets)
    have hTargets : ∀ r ∈ targets, (r, m) ∈ (s.next (.ask (.routeTargets v m)) targets).targets :=
      fun r hr => mem_append_left _ (mem_map.mpr ⟨r, hr, rfl⟩)
    change (gate cfg t).Obeys _ (s.next (.ask (.routeTargets v m)) targets) _
    generalize s.next (.ask (.routeTargets v m)) targets = s₁ at hExt₁ hTargets
    refine Protocol.Obeys.bind (Protocol.obeys_foldlM (I := fun _ s' => s₁.Extends s') ?_ (.refl s₁))
      fun _ s' hs' => hExt₁.trans hs'
    intro st s₂ hExt₂ r hr
    refine obeys_act (hExt₂.targets (hTargets r hr)) fun out _ => ?_
    have hExt₃ := hExt₂.trans (extends_next (a := .enqueue r m) trivial out)
    cases out with
    | none => exact hExt₃
    | some out =>
      refine Protocol.Obeys.bind (Protocol.obeys_forM (I := s₁.Extends) (fun l hl d _ => ?_) hExt₃) ?_
      · exact gate_deadLetter (fun hE hIn => ih hE (.inr hIn)) hl r d
      · exact fun _ s₄ hExt₄ => obeys_act trivial fun _ _ =>
          hExt₄.trans (extends_next (a := .wakeWaiters r) trivial ())

end Routes

/-! ## The discipline -/

/-- The session knows the login of the connection, and the queues that go with it. -/
structure GateInv (p : Proto) (s : Session) : Prop where
  conn : p.conn = s.conn
  user : p.user = s.user
  vhost : p.state ≠ .closing → p.vhost = s.vhost
  looked : ∀ w hash, p.pendingAuth = some w → w.stored = some hash → (w.user, hash) ∈ s.looked
  verified : s.user = [] ∨ s.user ∈ s.verified
  owned : ∀ name ∈ p.exclQueues, name ∈ s.owned

theorem GateInv.of_extends {p : Proto} {s s' : Session} (h : GateInv p s) (hExt : s.Extends s') :
    GateInv p s' where
  conn := h.conn.trans hExt.conn.symm
  user := h.user.trans hExt.user.symm
  vhost hOpen := (h.vhost hOpen).trans hExt.vhost.symm
  looked w hash hw hStored := hExt.looked ▸ h.looked w hash hw hStored
  verified := by
    rw [hExt.user, hExt.verified]
    exact h.verified
  owned name hName := hExt.owned (h.owned name hName)

theorem GateInv.of_login {p q : Proto} {s : Session} (h : GateInv p s) (hLogin : p.SameLogin q) :
    GateInv q s where
  conn := hLogin.conn.trans h.conn
  user := hLogin.user.trans h.user
  vhost hOpen :=
    have hSame := hLogin.vhost.resolve_left hOpen
    hSame.1.trans (h.vhost hSame.2)
  looked w hash hw := h.looked w hash (hLogin.pendingAuth ▸ hw)
  verified := h.verified
  owned name hName := h.owned name (hLogin.queues hName)

theorem GateInv.track {p : Proto} {s : Session} (h : GateInv p s) {name : Bytes}
    (hName : name ∈ s.owned) : GateInv (p.trackExclusive name) s := by
  unfold Proto.trackExclusive
  split
  · exact h
  refine ⟨h.conn, h.user, h.vhost, h.looked, h.verified, fun x hx => ?_⟩
  rcases mem_append.mp hx with hOld | hNew
  · exact h.owned x hOld
  · rw [mem_singleton.mp hNew]
    exact hName

theorem authCheck_denies {cfg : Cfg} {t : Thread} {srv : Server} (hNone : srv.NoEmptyUser)
    {vhost object : Bytes} {kind : AuthKind} :
    (Act.run cfg t (.ask (.authCheck [] vhost kind object)) srv).1 = false := by
  show authstoreCheck cfg srv.auth [] vhost kind object = false
  unfold authstoreCheck
  rw [hNone vhost]

/-- **The building blocks of the handlers keep to the gate.** -/
def gateDiscipline (cfg : Cfg) (hAuth : cfg.auth = true) (t : Thread) :
    Discipline cfg (gate cfg t) where
  Inv := GateInv
  Has := Has
  follows hFollows hInv := hInv.of_login hFollows.toSameLogin
  acts ha hInv hRights := ⟨may_covered ha hRights, fun r _ =>
    ⟨hInv.of_extends (extends_next ha.free r),
      fun hKeeping x hx => has_next ha hKeeping r (hRights x hx)⟩⟩
  parts := mem_cons_self
  lasts a r hParted := parted_next a r hParted
  idle hAuto hParted := ⟨mem_cons_self, hParted, hAuto⟩
  found _ := mem_cons_self
  mine {p l _ n r} hInv hFound := by
    show n ∈ (if p.conn = l.conn then l.own r else l).owned
    rw [if_pos hInv.conn]
    exact mem_own hFound
  takes {p l _ n r} hInv hFound := by
    show n ∈ (if p.conn = l.conn then l.own r else l).owned
    rw [if_pos hInv.conn]
    exact mem_own hFound
  tracks hInv hOwned := GateInv.track hInv hOwned
  owns hInv hName := GateInv.owned hInv _ hName
  perm := by
    intro p l kind object hInv hOpen
    unfold permOk
    rw [if_pos hAuth]
    refine ⟨trivial, fun ok hAnswer => ?_⟩
    cases ok with
    | false => exact ⟨hInv, nofun, fun _ h => h⟩
    | true =>
      have hGrows := grows_learn (s := l) (a := .ask (.authCheck p.user p.vhost kind object))
        trivial true
      refine ⟨hInv.of_extends hGrows.toExtends, fun _ => ?_, fun x hx => hx.mono hGrows⟩
      -- the empty user has no row, so the user that passed has been verified
      have hVerified : l.user ∈ l.verified := by
        refine hInv.verified.resolve_left fun hEmpty => ?_
        obtain ⟨srv, hNone, hRun⟩ := hAnswer
        rw [hInv.user, hEmpty, authCheck_denies hNone] at hRun
        cases hRun
      exact ⟨hInv.vhost hOpen, hVerified, hInv.user ▸ mem_cons_self⟩
  anybody _ _ hNoAuth := by
    rw [hAuth] at hNoAuth
    cases hNoAuth
  lookupHash := by
    intro p l user pass hInv _
    refine ⟨trivial, fun stored _ => ?_⟩
    cases stored with
    | none =>
      refine ⟨hInv.conn, hInv.user, hInv.vhost, fun w hash hw hStored => ?_, hInv.verified,
        hInv.owned⟩
      cases hw
      cases hStored
    | some stored =>
      refine ⟨hInv.conn, hInv.user, hInv.vhost, fun w hash hw hStored => ?_, hInv.verified,
        hInv.owned⟩
      cases hw
      cases hStored
      exact mem_cons_self
  passwordMatches := by
    intro p l w stored hInv hw hStored
    refine ⟨hInv.looked w stored hw hStored, fun matched _ => ?_⟩
    cases matched with
    | false =>
      exact ⟨hInv.conn, hInv.user, hInv.vhost, fun w hash hw => (nomatch hw), hInv.verified,
        hInv.owned⟩
    | true =>
      exact ⟨hInv.conn, rfl, hInv.vhost, fun w hash hw => (nomatch hw), .inr mem_cons_self,
        hInv.owned⟩
  forget hInv :=
    ⟨hInv.conn, hInv.user, hInv.vhost, fun w hash hw => (nomatch hw), hInv.verified, hInv.owned⟩
  canAccessVhost := by
    intro p l vhost hInv
    refine ⟨trivial, fun access _ => ?_⟩
    cases access with
    | false => exact ⟨hInv.conn, hInv.user, hInv.vhost, hInv.looked, hInv.verified, hInv.owned⟩
    | true => exact ⟨hInv.conn, hInv.user, fun _ => rfl, hInv.looked, hInv.verified, hInv.owned⟩
  routes fuel hInv hGrant :=
    (gate_route fuel (.refl _) (.inl hGrant)).mono fun _ _ hExt => hInv.of_extends hExt
  letter fuel r m hInv :=
    (gate_deadLetter (fun hE hIn => gate_route fuel hE (.inr hIn)) (.refl _) r m).mono
      fun _ _ hExt => hInv.of_extends hExt

theorem gate_confirms {cfg : Cfg} (hAuth : cfg.auth = true) (t : Thread) :
    (gateDiscipline cfg hAuth t).Confirms where
  login hLogin hInv := GateInv.of_login hInv hLogin
  confirm _ _ _ hInv := ⟨trivial, fun r _ =>
    GateInv.of_extends hInv (extends_next (a := .send ..) trivial r)⟩

/-! ## The gate -/

/-- Connection `c` from its accept on, through the events `es`. -/
def session (cfg : Cfg) (fuel c : Nat) (es : List ConnEvent) : Proc Stream :=
  es.foldlM (connCallback cfg fuel) { proto := { conn := c } }

theorem obeys_session {cfg : Cfg} (hAuth : cfg.auth = true) (t : Thread) (fuel c : Nat)
    (es : List ConnEvent) :
    (gate cfg t).Obeys (session cfg fuel c es) { conn := c } fun st s => GateInv st.proto s :=
  Protocol.obeys_foldlM
    (fun _ _ hInv e _ => (gate_confirms hAuth t).obeys_connCallback fuel hInv e)
    ⟨rfl, rfl, fun _ => rfl, fun _ _ hw => (nomatch hw), .inl rfl, fun _ hx => (nomatch hx)⟩

theorem expects_of_answers {cfg : Cfg} {t : Thread} {done : List (Sigma Act.Ret)}
    (hAnswers : ∀ x ∈ done, ∃ s : Server, s.NoEmptyUser ∧ x.2 = (x.1.run cfg t s).1) (s : Session) :
    (gate cfg t).Expects s done := by
  induction done generalizing s with
  | nil => trivial
  | cons x done ih =>
    exact ⟨hAnswers x mem_cons_self, ih (fun y hy => hAnswers y (mem_cons_of_mem x hy)) _⟩

def demoAuthCfg : Cfg := { auth := true }

def demoAuthServer : Server where
  conns := AList.insert 1 { worker := .worker 0, stream := { proto := { conn := 1 } } } ∅
  auth :=
    { vhosts := {ascii "/"}
      users := AList.insert (ascii "u") ⟨ascii "hash", 0⟩ ∅
      perms := AList.insert (ascii "u", ascii "/") ⟨ascii ".*", ascii ".*", ascii ".*"⟩ ∅ }

/-- Greeting, login, open and channel. -/
def demoAuthLogin : List ConnEvent :=
  [.data protocolHeader,
    .data (methodFrame 0 classConnection connectionStartOk
      (putLongstr [] ++ putShortstr (ascii "PLAIN") ++ putLongstr ([0, 0x75, 0, 0x70]) ++
        putShortstr (ascii "en_US"))),
    .authDone,
    .data (methodFrame 0 classConnection connectionOpen (putShortstr (ascii "/") ++ [0, 0])),
    .data (methodFrame 1 classChannel channelOpen [0])]

/-- `Queue.Declare` of an exclusive queue. -/
def demoAuthDeclare : ConnEvent :=
  .data (methodFrame 1 classQueue queueDeclare
    ([0, 0] ++ putShortstr (ascii "q") ++ [4] ++ putLongstr []))

def demoAuthRun {α : Type} (p : Proc α) (s : Server) : List (Sigma Act.Ret) × Option α × Server :=
  p.execute (Act.run demoAuthCfg (.worker 0)) s

def demoAuthNamed {α : Type} (p : Proc α) (s : Server) : Bool :=
  p.stays (Act.run demoAuthCfg (.worker 0)) (fun s => s.auth.perms.keys.all fun k => k.1 ≠ []) s

theorem demoAuth_answers {α : Type} {p : Proc α} {s : Server} (hNamed : demoAuthNamed p s = true) :
    ∀ x ∈ (demoAuthRun p s).1, ∃ s : Server, s.NoEmptyUser ∧
      x.2 = (x.1.run demoAuthCfg (.worker 0) s).1 := by
  intro x hx
  obtain ⟨s', hRows, hAnswer⟩ := answers_of_stays hNamed x hx
  refine ⟨s', fun vhost => AList.lookup_eq_none.mpr fun hMem => ?_, hAnswer⟩
  simpa using all_eq_true.mp hRows _ (AList.mem_keys.mp hMem)

/-- After the events `es`, the callback of `e` does its action number `k` with `ok`. -/
def demoAuthTest (es : List ConnEvent) (e : ConnEvent) (k : Nat) (ok : Act → Bool) : Bool :=
  match demoAuthRun (session demoAuthCfg 5 1 es) demoAuthServer with
  | (_, some st, s) =>
    let p := connCallback demoAuthCfg 5 st e
    demoAuthNamed (session demoAuthCfg 5 1 es) demoAuthServer && demoAuthNamed p s &&
      (demoAuthRun p s).1[k]?.any fun x => ok x.1
  | _ => false

theorem demoAuth_turn (es : List ConnEvent) (e : ConnEvent) (k : Nat) (ok : Act → Bool)
    (h : demoAuthTest es e k ok = true) :
    ∃ done st now a, now.length = k ∧ ok a = true ∧
      (session demoAuthCfg 5 1 es).Returns done st ∧
      (connCallback demoAuthCfg 5 st e).Reaches now a ∧
      ∀ x ∈ done ++ now, ∃ s : Server, s.NoEmptyUser ∧
        x.2 = (x.1.run demoAuthCfg (.worker 0) s).1 := by
  unfold demoAuthTest at h
  split at h
  · rename_i done st s hRun
    simp only [Bool.and_eq_true] at h
    obtain ⟨⟨hBefore, hNow⟩, hAny⟩ := h
    obtain ⟨x, hx, hOk⟩ := (Option.any_eq_true _ _).mp hAny
    obtain ⟨hk, -⟩ := List.getElem?_eq_some_iff.mp hx
    refine ⟨done, st, _, x.1, length_take_of_le hk.le, hOk, ?_, reaches_of_getElem? hx, ?_⟩
    · have hReturns := returns_of_execute (congrArg (fun run => run.2.1) hRun)
      rwa [show execute _ _ _ = _ from hRun] at hReturns
    · refine forall_mem_append.mpr ⟨fun y hy => ?_, fun y hy => ?_⟩
      · exact demoAuth_answers hBefore y (by rwa [hRun])
      · exact demoAuth_answers hNow y ((take_sublist k _).subset hy)
  · cases h

end BeaverMQ.Amqp
