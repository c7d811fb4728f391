import BeaverMQ.Model.Replicate
import BeaverMQ.Wire.Sizes

/-!
# BeaverMQ — the codec of replicated operations

Ten hand-written pairs of writers and readers share a private format. The read pointer of
`apply_op` stays inside of the payload whatever the payload holds, since each read follows a reader
of lists (`Follows`, `Reads`). And the bytes an entry point wrote make `apply_op` carry out that
operation, with its arguments (`RepOp.perform`). The entry keeps the length of its payload in 32
bits, so this is about ops of less than 4 GiB.
-/

namespace BeaverMQ

open Bytes Cursor List

/-! ## The read pointer stays inside of the payload -/

section

variable {m : Bytes} {β : Type} {P : Bytes → Prop}

theorem follows_rd8 : Follows m P (rd8At m) rd8 := by
  have hRead : Follows m (fun l => P l ∧ 1 ≤ l.length) _ _ :=
    (follows_next 0).mono fun l hl => length_pos_iff.mp hl.2
  refine (Follows.check (c := fun room => 1 ≤ room) (hRead.bind fun a => .pure a.toNat)
    (.pure 0)).congr fun l _ => ?_
  cases l with
  | nil | cons => rfl

theorem follows_two : Follows m (fun l => P l ∧ ¬ l.length < 2)
    (do
      let a ← next m
      let b ← next m
      return a.toNat * 256 + b.toNat) rd16 := by
  have hFirst : Follows m (fun l => P l ∧ ¬ l.length < 2) _ _ :=
    (follows_next 0).mono fun l hl => length_pos_iff.mp (by omega)
  refine (hFirst.bind (g := fun a l => (a.toNat * 256 + (l.headD 0).toNat, l.tail))
    fun a => ?_).congr fun l hl => ?_
  · have hSecond : Follows m (fun l => ∃ l₀, (P l₀ ∧ ¬ l₀.length < 2) ∧
        (l₀.headD 0, l₀.tail) = (a, l)) _ _ := (follows_next 0).mono fun l hl => by
      obtain ⟨l₀, ⟨-, hTwo⟩, hTail⟩ := hl
      obtain ⟨-, rfl⟩ := Prod.mk.inj hTail
      refine length_pos_iff.mp ?_
      rw [length_tail]
      omega
    exact hSecond.bind fun b => .pure (a.toNat * 256 + b.toNat)
  · obtain ⟨-, hTwo⟩ := hl
    match l, hTwo with
    | [], hTwo => exact absurd (Nat.zero_lt_two) hTwo
    | [a], hTwo => exact absurd (Nat.one_lt_two) hTwo
    | a :: b :: l, _ => rfl

theorem follows_rd16 : Follows m P (rd16At m) rd16 := by
  refine (Follows.check (c := fun room => room < 2) (follows_finish.bind fun _ => .pure 0)
    follows_two).congr fun l _ => ?_
  dsimp only
  split
  · rename_i hShort
    match l, hShort with
    | [], _ => rfl
    | [a], _ => rfl
  · rfl

theorem follows_getBe (w : Nat) :
    Follows m (fun l => w ≤ l.length) (getBeAt m w) fun l => (beVal (l.take w), l.drop w) :=
  (follows_take w).bind fun bs => .pure (beVal bs)

theorem follows_rd32 : Follows m P (rd32At m) rd32 :=
  (Follows.check (c := fun room => room < 4) (follows_finish.bind fun _ => .pure 0)
    ((follows_getBe 4).mono fun l hl => by omega)).congr fun _ _ => rfl

theorem follows_rdStr : Follows m P (rdStrAt m) fun p =>
    if (rd16 p).2.length < (rd16 p).1 ∨ 256 ≤ (rd16 p).1 then (none, (rd16 p).2)
    else (some (cstr ((rd16 p).2.take (rd16 p).1)), (rd16 p).2.drop (rd16 p).1) := by
  refine follows_rd16.bind (g := fun n l => if l.length < n ∨ 256 ≤ n then (none, l)
    else (some (cstr (l.take n)), l.drop n)) fun n => ?_
  refine Follows.check (c := fun room => room < n ∨ 256 ≤ n) (.pure none) ?_
  exact ((follows_take n).mono fun l hl => by omega).bind fun bs => .pure (some (cstr bs))

theorem reads_withStr {d : β} {k : Bytes → Cursor β} {g : Bytes → Bytes → β}
    (hThen : ∀ s, Reads m (fun _ => True) (k s) (g s)) :
    Reads m P (withStr m d k) fun p => match rdStr p with
      | none => d
      | some (s, p) => g s p := by
  refine (follows_rdStr.reads (g := fun o p => o.elim d fun s => g s p) fun o => ?_).congr
    fun p _ => ?_
  · cases o with
    | none => exact .pure d
    | some s => exact (hThen s).mono fun _ _ => trivial
  · unfold rdStr
    dsimp only
    by_cases hRefused : (rd16 p).2.length < (rd16 p).1 ∨ 256 ≤ (rd16 p).1
    · rw [if_pos hRefused, if_pos (by simpa using hRefused)]
      rfl
    · rw [if_neg hRefused, if_neg (by simpa using hRefused)]
      rfl

theorem reads_withBlock {d : β} {k : Bytes → Cursor β} {g : Bytes → Bytes → β}
    (hThen : ∀ s, Reads m (fun _ => True) (k s) (g s)) :
    Reads m P (withBlock m d k) fun p => match rdBlock p with
      | none => d
      | some (s, p) => g s p := by
  have hBlock : ∀ n, Reads m (fun _ => True) (do
      let room ← left m
      if room < n then return d else k (← take m n))
      fun l => if l.length < n then d else g (l.take n) (l.drop n) := fun n =>
    .check (c := fun room => room < n) (.pure d) <|
      ((follows_take n).mono fun l hl => by omega).reads fun bs =>
        (hThen bs).mono fun _ _ => trivial
  refine (Reads.check (c := fun room => room < 4) (.pure d)
    (((follows_getBe 4).mono fun l hl => by omega).reads fun n =>
      (hBlock n).mono fun _ _ => trivial)).congr fun p _ => ?_
  unfold rdBlock
  dsimp only
  split
  · rfl
  split
  · rfl
  · rfl

/-! ## `apply_op` -/

/-- The policy a queue that was created gets from the bytes behind its name. -/
def applyQueuePolicy (b : Broker) (vh name : Bytes) (p : Bytes) : Broker :=
  if 17 ≤ p.length then
    match rdStr (((rd8 p).2.drop 8).drop 8) with
    | none => b
    | some (dlx, p') =>
      match rdStr p' with
      | none => b
      | some (dlxRkey, _) =>
        b.updQueue (vkey vh name) fun q =>
          { q with
            maxLength := beVal ((rd8 p).2.take 8)
            maxBytes := beVal (((rd8 p).2.drop 8).take 8)
            overflow := if (rd8 p).1 = 1 then .dropHead else .rejectPublish
            dlExchange := dlx
            dlRoutingKey := if dlx = [] then [] else dlxRkey }
  else b

theorem applyDeclareQueue_eq (b : Broker) (p : Bytes) :
    applyDeclareQueue b p =
      match rdStr (rd8 p).2 with
      | none => b
      | some (vh, p') =>
        match rdStr p' with
        | none => b
        | some (name, p') =>
          match brokerDeclareQueue b vh name (rd8 p).1 with
          | (b, created) => if created then applyQueuePolicy b vh name p' else b := by
  have hLimits : ∀ l : Bytes, l.drop 16 = (l.drop 8).drop 8 := fun l => (drop_drop (i := 8) (j := 8)).symm
  unfold applyDeclareQueue applyQueuePolicy
  simp only [hLimits]
  cases rdStr (rd8 p).2 with
  | none => rfl
  | some r =>
    obtain ⟨vh, p₁⟩ := r
    dsimp only
    cases rdStr p₁ with
    | none => rfl
    | some r =>
      obtain ⟨name, p₂⟩ := r
      dsimp only
      cases (brokerDeclareQueue b vh name (rd8 p).1).2 with
      | false => rfl
      | true =>
        by_cases hPolicy : 17 ≤ p₂.length
        · exact (if_pos (decide_eq_true hPolicy)).trans (if_pos hPolicy).symm
        · exact (if_neg (by simpa using hPolicy)).trans (if_neg hPolicy).symm

theorem rd8_length (p : Bytes) : (rd8 p).2.length = p.length - 1 := by
  cases p with
  | nil | cons => rfl

variable (b : Broker)

theorem reads_applyQueuePolicy (vh name : Bytes) :
    Reads m (fun _ => True) (applyQueuePolicyAt m b vh name) (applyQueuePolicy b vh name) := by
  -- one byte of the seventeen is gone, then nine
  have hFirst : ∀ overflow, Follows m (fun l => ∃ l₀, (True ∧ 17 ≤ l₀.length) ∧
      rd8 l₀ = (overflow, l)) (getBeAt m 8) fun l => (beVal (l.take 8), l.drop 8) :=
    fun overflow => (follows_getBe 8).mono fun l hl => by
      obtain ⟨l₀, ⟨-, hRoom⟩, hRead⟩ := hl
      have hLength := rd8_length l₀
      rw [hRead] at hLength
      dsimp only at hLength
      omega
  have hSecond : ∀ overflow maxLength, Follows m (fun l => ∃ l₁, (∃ l₀, (True ∧ 17 ≤ l₀.length) ∧
      rd8 l₀ = (overflow, l₁)) ∧ (beVal (l₁.take 8), l₁.drop 8) = (maxLength, l))
      (getBeAt m 8) fun l => (beVal (l.take 8), l.drop 8) :=
    fun overflow maxLength => (follows_getBe 8).mono fun l hl => by
      obtain ⟨l₁, ⟨l₀, ⟨-, hRoom⟩, hRead⟩, hNext⟩ := hl
      have hLength := rd8_length l₀
      rw [hRead] at hLength
      dsimp only at hLength
      obtain ⟨-, rfl⟩ := Prod.mk.inj hNext
      rw [length_drop]
      omega
  exact (Reads.check (c := fun room => 17 ≤ room)
    (follows_rd8.reads fun overflow => (hFirst overflow).reads fun maxLength =>
      (hSecond overflow maxLength).reads fun _ =>
        reads_withStr fun _ => reads_withStr fun _ => .pure _) (.pure b)).congr fun _ _ => rfl

theorem reads_applyDeclareQueue :
    Reads m (fun _ => True) (applyDeclareQueueAt m b) (applyDeclareQueue b) := by
  have hTail : ∀ flags vh name, Reads m (fun _ => True)
      (match brokerDeclareQueue b vh name flags with
        | (b, created) => if created then applyQueuePolicyAt m b vh name else return b)
      fun p => match brokerDeclareQueue b vh name flags with
        | (b, created) => if created then applyQueuePolicy b vh name p else b := by
    intro flags vh name
    rcases brokerDeclareQueue b vh name flags with ⟨b', created⟩
    cases created with
    | false => exact .pure b'
    | true => exact reads_applyQueuePolicy b' vh name
  refine (follows_rd8.reads fun flags => reads_withStr fun vh => reads_withStr fun name =>
    hTail flags vh name).congr fun p _ => ?_
  exact (applyDeclareQueue_eq b p).symm

theorem reads_applyDeclareExch :
    Reads m (fun _ => True) (applyDeclareExchAt m b) (applyDeclareExch b) :=
  follows_rd8.reads fun _ => follows_rd8.reads fun _ =>
    reads_withStr fun _ => reads_withStr fun _ => .pure _

theorem reads_applyBind : Reads m (fun _ => True) (applyBindAt m b) (applyBind b) :=
  reads_withStr fun _ => reads_withStr fun _ => reads_withStr fun _ => reads_withStr fun _ => .pure _

theorem reads_applyDeleteQueue :
    Reads m (fun _ => True) (applyDeleteQueueAt m b) (applyDeleteQueue b) :=
  reads_withStr fun _ => reads_withStr fun _ => .pure _

theorem reads_applyPublish (index : Nat) :
    Reads m (fun _ => True) (applyPublishAt m b index) (applyPublish b index) :=
  reads_withStr fun _ => reads_withStr fun _ => reads_withStr fun _ =>
    reads_withBlock fun _ => reads_withBlock fun _ => .pure _

theorem reads_applyAck : Reads m (fun _ => True) (applyAckAt m b) (applyAck b) :=
  reads_withStr fun _ => reads_withStr fun _ => .check (c := fun room => room < 8) (.pure b)
    (((follows_getBe 8).mono fun l hl => by omega).reads fun _ => .pure _)

theorem reads_applyAddUser (s : AuthStore) :
    Reads m (fun _ => True) (applyAddUserAt m s) (applyAddUser s) :=
  reads_withStr fun _ => reads_withStr fun _ => follows_rd32.reads fun _ => .pure _

theorem reads_applySetPerm (s : AuthStore) :
    Reads m (fun _ => True) (applySetPermAt m s) (applySetPerm s) :=
  reads_withStr fun _ => reads_withStr fun _ => reads_withStr fun _ => reads_withStr fun _ =>
    reads_withStr fun _ => .pure _

theorem reads_applyClearPerm (s : AuthStore) :
    Reads m (fun _ => True) (applyClearPermAt m s) (applyClearPerm s) :=
  reads_withStr fun _ => reads_withStr fun _ => .pure _

theorem Reads.map {γ : Type} {r : Cursor β} {f : Bytes → β} (h : Reads m P r f) (g : β → γ) :
    Reads m P (r >>= fun b => return g b) fun p => g (f p) := by
  intro i hi hP
  obtain ⟨j, hRun⟩ := h i hi hP
  refine ⟨j, ?_⟩
  rw [StateT.run_bind, hRun]
  rfl

theorem reads_applySwitch (s : Applied) (index : Nat) (op : ClOp) :
    Reads m (fun _ => True) (applySwitchAt m s index op) (applySwitch s index op) := by
  cases op with
  | noop => exact .pure s
  | publish => exact Reads.map (reads_applyPublish _ _) _
  | declareQueue => exact Reads.map (reads_applyDeclareQueue _) _
  | declareExch => exact Reads.map (reads_applyDeclareExch _) _
  | bind => exact Reads.map (reads_applyBind _) _
  | ack => exact Reads.map (reads_applyAck _) _
  | addVhost | delVhost => exact reads_withStr fun _ => .pure _
  | addUser => exact Reads.map (reads_applyAddUser _) _
  | delUser => exact reads_withStr fun _ => .pure _
  | setPerm => exact Reads.map (reads_applySetPerm _) _
  | clearPerm => exact Reads.map (reads_applyClearPerm _) _
  | deleteQueue => exact Reads.map (reads_applyDeleteQueue _) _

/-- **No byte behind the payload is read**, whatever the payload is, and what the walk over it
does is `apply_op` on the bytes. -/
theorem applyOpAt_eq (s : Applied) (index op : Nat) (payload : Bytes) :
    applyOpAt s index op payload = some (applyOp s index op payload) := by
  unfold applyOpAt applyOp
  cases ClOp.ofCode op with
  | none => rfl
  | some cop =>
    obtain ⟨j, hRun⟩ := reads_applySwitch (m := payload) s index cop 0 (Nat.zero_le _) trivial
    dsimp only
    rw [hRun]
    rfl

end

/-! ## The operations -/

/-- A call of one of the `cluster_replicate_*` entry points. -/
inductive RepOp
  | declareQueue (vhost name : Bytes) (flags overflow : UInt8) (maxLength maxBytes : UInt64)
      (dlx dlxRkey : Option Bytes)
  | declareExchange (vhost name : Bytes) (type : ExchangeType) (flags : UInt8)
  | bind (vhost queue exchange routingKey : Bytes)
  | publish (p : Publish)
  | deleteQueue (vhost queue : Bytes)
  | consume (vhost queue : Bytes) (watermark : UInt64)
  | addVhost (vhost : Bytes)
  | delVhost (vhost : Bytes)
  | addUser (user passHash : Bytes) (tags : UInt32)
  | delUser (user : Bytes)
  | setPerm (user vhost configure write read : Bytes)
  | clearPerm (user vhost : Bytes)

namespace RepOp

def encode : RepOp → Option Bytes
  | .declareQueue vhost name flags overflow maxLength maxBytes dlx dlxRkey =>
    Encode.clusterReplicateDeclareQueue vhost name flags overflow maxLength maxBytes dlx dlxRkey
  | .declareExchange vhost name type flags =>
    Encode.clusterReplicateDeclareExchange vhost name type flags
  | .bind vhost queue exchange routingKey =>
    Encode.clusterReplicateBind vhost queue exchange routingKey
  | .publish p => encodePublishOp p
  | .deleteQueue vhost queue => Encode.clusterReplicateDeleteQueue vhost queue
  | .consume vhost queue watermark => Encode.clusterReplicateConsume vhost queue watermark
  | .addVhost vhost => Encode.clusterReplicateAddVhost vhost
  | .delVhost vhost => Encode.clusterReplicateDelVhost vhost
  | .addUser user passHash tags => Encode.clusterReplicateAddUser user passHash tags
  | .delUser user => Encode.clusterReplicateDelUser user
  | .setPerm user vhost configure write read =>
    Encode.clusterReplicateSetPerm user vhost configure write read
  | .clearPerm user vhost => Encode.clusterReplicateClearPerm user vhost

def op : RepOp → ClOp
  | .declareQueue .. => .declareQueue
  | .declareExchange .. => .declareExch
  | .bind .. => .bind
  | .publish .. => .publish
  | .deleteQueue .. => .deleteQueue
  | .consume .. => .ack
  | .addVhost .. => .addVhost
  | .delVhost .. => .delVhost
  | .addUser .. => .addUser
  | .delUser .. => .delUser
  | .setPerm .. => .setPerm
  | .clearPerm .. => .clearPerm

def names : RepOp → List Bytes
  | .declareQueue vhost name _ _ _ _ dlx dlxRkey => [vhost, name, dlx.getD [], dlxRkey.getD []]
  | .declareExchange vhost name _ _ => [vhost, name]
  | .bind vhost queue exchange routingKey => [vhost, queue, exchange, routingKey]
  | .publish p => [p.vhost, p.exchange, p.routingKey]
  | .deleteQueue vhost queue => [vhost, queue]
  | .consume vhost queue _ => [vhost, queue]
  | .addVhost vhost => [vhost]
  | .delVhost vhost => [vhost]
  | .addUser user passHash _ => [user, passHash]
  | .delUser user => [user]
  | .setPerm user vhost configure write read => [user, vhost, configure, write, read]
  | .clearPerm user vhost => [user, vhost]

def blocks : RepOp → List Bytes
  | .publish p => [p.props, p.body]
  | _ => []

/-- Arguments the C interface can express: strings end at their NUL, lengths fit 32 bits. -/
structure Valid (o : RepOp) : Prop where
  names : ∀ s ∈ o.names, 0 ∉ s
  blocks : ∀ s ∈ o.blocks, s.length < 2 ^ 32

end RepOp

/-- Declare a queue. One that was created gets the limits, and the dead-letter exchange if there
is one. -/
def declareQueueWith (b : Broker) (vhost name : Bytes) (flags overflow : UInt8)
    (maxLength maxBytes : UInt64) (dlx dlxRkey : Bytes) : Broker :=
  match brokerDeclareQueue b vhost name flags.toNat with
  | (b, false) => b
  | (b, true) => b.updQueue (vkey vhost name) fun q =>
    let q := { q with maxLength := maxLength.toNat
                      maxBytes := maxBytes.toNat
                      overflow := if overflow = 1 then .dropHead else .rejectPublish }
    if dlx = [] then q else { q with dlExchange := dlx, dlRoutingKey := dlxRkey }

/-- What the operation does to the broker and the access-control store when it is committed at
`index`. -/
def RepOp.perform (s : Applied) (index : Nat) : RepOp → Applied
  | .declareQueue vhost name flags overflow maxLength maxBytes dlx dlxRkey =>
    { s with broker := declareQueueWith s.broker vhost name flags overflow maxLength maxBytes
                         (dlx.getD []) (dlxRkey.getD []) }
  | .declareExchange vhost name type flags =>
    { s with broker := brokerDeclareExchange s.broker vhost name type.code.toNat flags.toNat }
  | .bind vhost queue exchange routingKey =>
    { s with broker := brokerBind s.broker vhost queue exchange routingKey }
  | .publish p => { s with broker := brokerRoute s.broker p.vhost (p.message index) }
  | .deleteQueue vhost queue => { s with broker := brokerDeleteQueue s.broker vhost queue }
  | .consume vhost queue watermark =>
    { s with broker := s.broker.updQueue (vkey vhost queue) fun q =>
               queueDrainConsumed q watermark.toNat }
  | .addVhost vhost =>
    { s with auth := authstoreAddVhost s.auth vhost
             broker := brokerDeclareDefaultExchanges s.broker vhost }
  | .delVhost vhost => { s with auth := authstoreDelVhost s.auth vhost }
  | .addUser user passHash tags =>
    { s with auth := authstoreAddUser s.auth user passHash tags.toNat }
  | .delUser user => { s with auth := authstoreDelUser s.auth user }
  | .setPerm user vhost configure write read =>
    { s with auth := authstoreSetPerm s.auth user vhost configure write read }
  | .clearPerm user vhost => { s with auth := authstoreClearPerm s.auth user vhost }

/-! ## The round trip -/

structure IsName (s : Bytes) : Prop where
  short : s.length ≤ 250
  noNul : 0 ∉ s

theorem IsName.read {s : Bytes} (h : IsName s) (rest : Bytes) :
    rdStr (wrStr s ++ rest) = some (s, rest) :=
  rdStr_wrStr (by have := h.short; omega) h.noNul rest

theorem IsName.read_last {s : Bytes} (h : IsName s) : rdStr (wrStr s) = some (s, []) := by
  have hRead := h.read []
  rwa [append_nil] at hRead

variable {payload vhost name : Bytes} {b : Broker}

theorem encodeOp_eq_some {names : List Bytes} {p : Bytes}
    (h : Encode.encodeOp names payload = some p) : payload = p ∧ ∀ s ∈ names, s.length ≤ 250 := by
  unfold Encode.encodeOp at h
  split at h
  · cases h
  rename_i hShort
  cases h
  refine ⟨rfl, fun s hs => ?_⟩
  have hNot : ¬ 250 < s.length := fun hLong =>
    hShort (any_eq_true.mpr ⟨s, hs, decide_eq_true hLong⟩)
  omega

theorem encodePublishOp_eq_some {p : Publish} (h : encodePublishOp p = some payload) :
    payload = wrStr p.vhost ++ wrStr p.exchange ++ wrStr p.routingKey ++
        beBytes 4 p.props.length ++ p.props ++ beBytes 4 p.body.length ++ p.body ∧
      ∀ s ∈ [p.vhost, p.exchange, p.routingKey], s.length ≤ 250 := by
  unfold encodePublishOp at h
  split at h
  · cases h
  rename_i hShort
  simp only [Bool.or_eq_true, decide_eq_true_eq, not_or, Nat.not_lt] at hShort
  cases h
  refine ⟨rfl, ?_⟩
  simpa [and_assoc] using hShort

theorem isName_of_encode {o : RepOp} (hEncode : o.encode = some payload)
    (hValid : o.Valid) : ∀ s ∈ o.names, IsName s := by
  have hShort : ∀ s ∈ o.names, s.length ≤ 250 := by
    cases o with
    | publish p => exact (encodePublishOp_eq_some hEncode).2
    | _ => exact (encodeOp_eq_some hEncode).2
  exact fun s hs => ⟨hShort s hs, hValid.names s hs⟩

theorem uint64_read (v : UInt64) (rest : Bytes) :
    beVal ((beBytes 8 v.toNat ++ rest).take 8) = v.toNat ∧
      (beBytes 8 v.toNat ++ rest).drop 8 = rest := by
  refine ⟨?_, drop_left' (beBytes_length 8 _)⟩
  rw [take_left' (beBytes_length 8 _)]
  exact beVal_beBytes_of_lt v.toNat_lt

theorem brokerDeclareQueue_created {b' : Broker} {flags : Nat}
    (h : brokerDeclareQueue b vhost name flags = (b', true)) :
    b'.queues.get (vkey vhost name) = some { vhost, name, flags, gen := b.nextGen } := by
  unfold brokerDeclareQueue at h
  dsimp only at h
  split at h
  · cases h
  · cases h
    rw [Table.get_insert, if_pos rfl]

theorem updQueue_congr {key : Bytes} {q : Queue} {f g : Queue → Queue}
    (hGet : b.queues.get key = some q) (hSame : f q = g q) : b.updQueue key f = b.updQueue key g := by
  unfold Broker.updQueue Table.modify
  rw [hGet]
  dsimp only
  rw [hSame]

theorem applyQueuePolicy_encode {dlx dlxRkey : Bytes} {q : Queue}
    (hGet : b.queues.get (vkey vhost name) = some q) (hFresh : q.dlExchange = [])
    (hFreshKey : q.dlRoutingKey = []) (overflow : UInt8) (maxLength maxBytes : UInt64)
    (hDlx : IsName dlx) (hRkey : IsName dlxRkey) :
    applyQueuePolicy b vhost name (overflow :: (beBytes 8 maxLength.toNat ++
        (beBytes 8 maxBytes.toNat ++ (wrStr dlx ++ wrStr dlxRkey)))) =
      b.updQueue (vkey vhost name) fun q =>
        let q := { q with maxLength := maxLength.toNat
                          maxBytes := maxBytes.toNat
                          overflow := if overflow = 1 then .dropHead else .rejectPublish }
        if dlx = [] then q else { q with dlExchange := dlx, dlRoutingKey := dlxRkey } := by
  have hCode : overflow.toNat = 1 ↔ overflow = 1 := by
    rw [← UInt8.toNat_inj]
    rfl
  unfold applyQueuePolicy
  rw [if_pos (by simp; omega)]
  simp only [rd8, (uint64_read _ _).1, (uint64_read _ _).2, hDlx.read, hRkey.read_last, hCode]
  refine updQueue_congr hGet ?_
  by_cases hNone : dlx = []
  · rw [if_pos hNone, if_pos hNone, hNone, hFresh, hFreshKey]
  · rw [if_neg hNone, if_neg hNone]

theorem applyDeclareQueue_encode {dlx dlxRkey : Bytes} (hVhost : IsName vhost)
    (hName : IsName name) (hDlx : IsName dlx) (hRkey : IsName dlxRkey) (b : Broker)
    (flags overflow : UInt8) (maxLength maxBytes : UInt64) :
    applyDeclareQueue b ([flags] ++ wrStr vhost ++ wrStr name ++ [overflow] ++
        beBytes 8 maxLength.toNat ++ beBytes 8 maxBytes.toNat ++ wrStr dlx ++ wrStr dlxRkey) =
      declareQueueWith b vhost name flags overflow maxLength maxBytes dlx dlxRkey := by
  rw [applyDeclareQueue_eq]
  simp only [append_assoc, cons_append, nil_append, rd8, hVhost.read, hName.read]
  unfold declareQueueWith
  cases hDeclared : brokerDeclareQueue b vhost name flags.toNat with
  | mk b' created =>
    cases created with
    | false => rfl
    | true =>
      exact applyQueuePolicy_encode (brokerDeclareQueue_created hDeclared) rfl rfl overflow
        maxLength maxBytes hDlx hRkey

theorem applyPublish_encode {p : Publish} (hEncode : encodePublishOp p = some payload)
    (hNames : ∀ s ∈ [p.vhost, p.exchange, p.routingKey], IsName s)
    (hBlocks : ∀ s ∈ [p.props, p.body], s.length < 2 ^ 32) (b : Broker) (index : Nat) :
    applyPublish b index payload = brokerRoute b p.vhost (p.message index) := by
  obtain ⟨rfl, -⟩ := encodePublishOp_eq_some hEncode
  have hBody := rdBlock_append (hBlocks p.body (by simp)) []
  rw [append_nil] at hBody
  simp only [append_assoc]
  exact applyPublish_parts ((hNames p.vhost (by simp)).read _) ((hNames p.exchange (by simp)).read _)
    ((hNames p.routingKey (by simp)).read _) (rdBlock_append (hBlocks p.props (by simp)) _) hBody
    b index

theorem rd32_tags (tags : UInt32) : rd32 (beBytes 4 tags.toNat) = (tags.toNat, []) := by
  unfold rd32
  rw [if_neg (by simp), take_of_length_le (by simp), drop_of_length_le (by simp),
    beVal_beBytes_of_lt tags.toNat_lt]

/-- **The bytes carry the operation.** -/
theorem applySwitch_encode {o : RepOp} (hEncode : o.encode = some payload)
    (hValid : o.Valid) (s : Applied) (index : Nat) :
    applySwitch s index o.op payload = o.perform s index := by
  have hNames := isName_of_encode hEncode hValid
  cases o with
  | publish p =>
    exact congrArg (fun b => { s with broker := b })
      (applyPublish_encode hEncode hNames hValid.blocks _ _)
  | declareQueue vhost name flags overflow maxLength maxBytes dlx dlxRkey =>
    obtain ⟨rfl, -⟩ := encodeOp_eq_some hEncode
    simp only [RepOp.names, forall_mem_cons] at hNames
    obtain ⟨hVhost, hName, hDlx, hRkey, -⟩ := hNames
    exact congrArg (fun b => { s with broker := b })
      (applyDeclareQueue_encode hVhost hName hDlx hRkey _ _ _ _ _)
  | consume vhost queue watermark =>
    obtain ⟨rfl, -⟩ := encodeOp_eq_some hEncode
    have hMark := (uint64_read watermark []).1
    rw [append_nil] at hMark
    simp only [RepOp.names, forall_mem_cons] at hNames
    simp only [RepOp.op, RepOp.perform, applySwitch, applyAck, append_assoc, hNames.1.read,
      hNames.2.1.read, beBytes_length, lt_irrefl, if_false, hMark]
  | _ =>
    -- the strings are read back one by one, and a number behind them
    obtain ⟨rfl, -⟩ := encodeOp_eq_some hEncode
    simp only [RepOp.names, forall_mem_cons] at hNames
    simp only [RepOp.op, RepOp.perform, applySwitch, applyDeclareExch, applyBind, applyDeleteQueue,
      applyAddUser, applySetPerm, applyClearPerm, append_assoc, cons_append,
      nil_append, rd8, rd32_tags, IsName.read, IsName.read_last, hNames]

theorem loggedPayload_eq (hFits : payload.length < 2 ^ 32) : loggedPayload payload = payload := by
  unfold loggedPayload
  rw [Nat.mod_eq_of_lt hFits, take_of_length_le (le_refl _)]

theorem perform_topo (o : RepOp) (s : Applied) (index : Nat) :
    (o.perform s index).topo = s.topo := by
  cases o with
  | _ => rfl

/-- **What an entry point wrote down is what `apply_op` carries out.** The operation comes back
with its arguments, and the topology ops are recorded for snapshots; and no payload, well formed or
not, makes `apply_op` read behind its end. -/
theorem op_codec :
    (∀ (o : RepOp) (payload : Bytes), o.encode = some payload → o.Valid →
      payload.length < 2 ^ 32 → ∀ (s : Applied) (index : Nat),
        applyOpAt s index o.op.code (loggedPayload payload) =
          some { o.perform s index with
            topo := if o.op.isTopo then topoAdd s.topo ⟨o.op.code, payload⟩ else s.topo }) ∧
      ∀ (s : Applied) (index op : Nat) (payload : Bytes),
        (applyOpAt s index op payload).isSome := by
  refine ⟨?_, fun s index op payload => ?_⟩
  · intro o payload hEncode hValid hFits s index
    rw [loggedPayload_eq hFits, applyOpAt_eq]
    unfold applyOp
    rw [ClOp.ofCode_code]
    dsimp only
    rw [applySwitch_encode hEncode hValid, perform_topo]
    split
    · rfl
    · rw [← perform_topo o s index]
  · rw [applyOpAt_eq]
    rfl

def queueDeclaration : RepOp := .declareQueue [118] [113] 2 1 5 7 (some [100]) none

theorem op_codec_declare : ∃ payload, queueDeclaration.encode = some payload ∧
    applyOpAt {} 3 queueDeclaration.op.code (loggedPayload payload) =
      some { queueDeclaration.perform {} 3 with topo := [⟨2, payload⟩] } := by
  refine ⟨_, rfl, ?_⟩
  exact op_codec.1 queueDeclaration _ rfl
    ⟨by decide, fun s hs => nomatch hs⟩ (by decide) {} 3

def brokerWithQ : Broker :=
  { queues := (∅ : Table Bytes Queue).insert (vkey [] [113])
      { vhost := [], name := [113], flags := 0, gen := 0 } }

/-- A message for it with the longest body a 32-bit length can tell. -/
def longPublish : Publish where
  vhost := []
  exchange := []
  routingKey := [113]
  props := []
  body := replicate (2 ^ 32 - 1) 0

theorem route_brokerWithQ (body : Bytes) :
    ((brokerRoute brokerWithQ [] { exchange := [], routingKey := [113], props := [], body
                                   clusterId := 1 }).queues.get (vkey [] [113])).map
      (fun q => q.ready.length) = some 1 := rfl

/-- **The length of the whole op is kept in 32 bits.** A body whose length fits them can make an op
that does not: the entry is cut, and the message is not routed. -/
theorem op_codec_long : ∃ (o : RepOp) (payload : Bytes) (s : Applied) (index : Nat),
    o.encode = some payload ∧ o.Valid ∧
      applyOpAt s index o.op.code (loggedPayload payload) ≠
        some { o.perform s index with
          topo := if o.op.isTopo then topoAdd s.topo ⟨o.op.code, payload⟩ else s.topo } := by
  have hCode : beBytes 4 (2 ^ 32 - 1) = [255, 255, 255, 255] := by decide
  have hEncode : (RepOp.publish longPublish).encode =
      some ([0, 0, 0, 0, 0, 1, 113, 0, 0, 0, 0, 255, 255, 255, 255] ++
        replicate (2 ^ 32 - 1) 0) := by
    show encodePublishOp longPublish = _
    unfold encodePublishOp longPublish
    rw [length_replicate, hCode]
    rfl
  refine ⟨.publish longPublish, _, { broker := brokerWithQ }, 1, hEncode, ⟨by decide, ?_⟩, ?_⟩
  · intro s hs
    have hLong : ((replicate (2 ^ 32 - 1) 0 : Bytes)).length = 2 ^ 32 - 1 :=
      length_replicate
    rcases mem_pair.mp hs with rfl | rfl
    · exact Nat.two_pow_pos 32
    · show (replicate (2 ^ 32 - 1) 0 : Bytes).length < 2 ^ 32
      omega
  · have hCut : loggedPayload ([0, 0, 0, 0, 0, 1, 113, 0, 0, 0, 0, 255, 255, 255, 255] ++
        replicate (2 ^ 32 - 1) 0) = [0, 0, 0, 0, 0, 1, 113, 0, 0, 0, 0, 255, 255, 255] := by
      unfold loggedPayload
      rw [length_append, length_replicate]
      rfl
    rw [hCut]
    intro hSame
    have hReady := congrArg (fun a : Option Applied =>
      (a.bind fun s => s.broker.queues.get (vkey [] [113])).map fun q => q.ready.length) hSame
    exact absurd (hReady.trans (route_brokerWithQ _)) (by decide +kernel)

end BeaverMQ
