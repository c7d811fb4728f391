import BeaverMQ.Model.Broker
import Mathlib.Data.Finset.Basic
import Mathlib.Data.List.TakeWhile

/-!
# BeaverMQ — access control and the application of committed ops

`authstore.c` as three tables, the private op codec of `cluster.c`, and
`apply_op` with the `topo_add` accumulator that snapshots carry. The state
`apply_op` works on is the record `Applied`.
-/

namespace BeaverMQ

open Bytes

/-! ## Access control -/

def authstoreNameMax : Nat := 128
def authstoreRegexMax : Nat := 256
def authstoreHashMax : Nat := 128

/-- `user_t` without its name, which is the table key. -/
structure User where
  hash : Bytes
  tags : Nat
  deriving DecidableEq

/-- `perm_t` without its user and vhost, which are the table key. The compiled
regexes are a function of the three patterns. -/
structure Perm where
  conf : Bytes
  wr : Bytes
  rd : Bytes
  deriving DecidableEq

/-- `struct authstore`. -/
structure AuthStore where
  vhosts : Finset Bytes := ∅
  users : Table Bytes User := ∅
  perms : Table (Bytes × Bytes) Perm := ∅

variable (s : AuthStore)

/-- `too_long`; `max` includes the terminator. -/
def tooLong (s : Bytes) (max : Nat) : Bool := max ≤ s.length

def authstoreAddVhost (vhost : Bytes) : AuthStore :=
  if tooLong vhost authstoreNameMax then s else { s with vhosts := insert vhost s.vhosts }

/-- `authstore_del_vhost`: the permissions go only when the vhost existed. -/
def authstoreDelVhost (vhost : Bytes) : AuthStore :=
  if vhost ∈ s.vhosts then
    { s with vhosts := s.vhosts.erase vhost
             perms := s.perms.filter (fun k => k.2 ≠ vhost) }
  else s

def authstoreAddUser (user hash : Bytes) (tags : Nat) : AuthStore :=
  if tooLong user authstoreNameMax || tooLong hash authstoreHashMax then s
  else { s with users := s.users.insert user { hash, tags } }

/-- `authstore_del_user`: the permissions go only when the user existed. -/
def authstoreDelUser (user : Bytes) : AuthStore :=
  match s.users.get user with
  | some _ =>
    { s with users := s.users.erase user
             perms := s.perms.filter (fun k => k.1 ≠ user) }
  | none => s

def authstoreSetPerm (user vhost conf wr rd : Bytes) : AuthStore :=
  if tooLong user authstoreNameMax || tooLong vhost authstoreNameMax ||
      tooLong conf authstoreRegexMax || tooLong wr authstoreRegexMax ||
      tooLong rd authstoreRegexMax then s
  else { s with perms := s.perms.insert (user, vhost) { conf, wr, rd } }

def authstoreClearPerm (user vhost : Bytes) : AuthStore :=
  { s with perms := s.perms.erase (user, vhost) }

/-! ## Op codec -/

/-- The C string held in a buffer: the bytes before the first NUL. -/
def cstr (b : Bytes) : Bytes := b.takeWhile (· ≠ 0)

theorem cstr_eq {b : Bytes} (hNul : 0 ∉ b) : cstr b = b := by
  unfold cstr
  rw [List.takeWhile_eq_self_iff]
  intro c hc
  have hNe : c ≠ 0 := fun hZero => hNul (hZero ▸ hc)
  simpa using hNe

def rd8 : Bytes → Nat × Bytes
  | [] => (0, [])
  | b :: p => (b.toNat, p)

def rd16 : Bytes → Nat × Bytes
  | a :: b :: p => (a.toNat * 256 + b.toNat, p)
  | _ => (0, [])

def rd32 (p : Bytes) : Nat × Bytes :=
  if p.length < 4 then (0, []) else (beVal (p.take 4), p.drop 4)

/-- `rd_str` into a 256-byte buffer, read as a C string; `none` is `-1`. -/
def rdStr (p : Bytes) : Option (Bytes × Bytes) :=
  let (n, p) := rd16 p
  if p.length < n || 256 ≤ n then none else some (cstr (p.take n), p.drop n)

/-- A length-prefixed block: a `get_be32` length that must fit. -/
def rdBlock (p : Bytes) : Option (Bytes × Bytes) :=
  if p.length < 4 then none
  else
    let n := beVal (p.take 4)
    let p := p.drop 4
    if p.length < n then none else some (p.take n, p.drop n)

def wrStr (s : Bytes) : Bytes :=
  let n := s.length % 2 ^ 16
  beBytes 2 n ++ s.take n

/-! ## Applied state -/

/-- What `apply_op` works on: broker, authstore and the topology accumulator. -/
structure Applied where
  broker : Broker := {}
  auth : AuthStore := {}
  topo : List TopoRec := []

/-- `topo_add`: a record is kept unless a byte-identical one is already there. -/
def topoAdd (topo : List TopoRec) (r : TopoRec) : List TopoRec :=
  if r ∈ topo then topo else topo ++ [r]

/-- `CL_OP_DECLARE_QUEUE`. The trailing policy is read only when the declare created
the queue and at least its fixed part is there. -/
def applyDeclareQueue (b : Broker) (p : Bytes) : Broker :=
  let (flags, p) := rd8 p
  match rdStr p with
  | none => b
  | some (vh, p) =>
    match rdStr p with
    | none => b
    | some (name, p) =>
      let (b, created) := brokerDeclareQueue b vh name flags
      if created && 17 ≤ p.length then
        let (overflow, p) := rd8 p
        let maxLength := beVal (p.take 8)
        let maxBytes := beVal ((p.drop 8).take 8)
        match rdStr (p.drop 16) with
        | none => b
        | some (dlx, p) =>
          match rdStr p with
          | none => b
          | some (dlxRkey, _) =>
            b.updQueue (vkey vh name) fun q =>
              { q with
                maxLength := maxLength
                maxBytes := maxBytes
                overflow := if overflow = 1 then .dropHead else .rejectPublish
                dlExchange := dlx
                dlRoutingKey := if dlx = [] then [] else dlxRkey }
      else b

/-- `CL_OP_DECLARE_EXCH`. -/
def applyDeclareExch (b : Broker) (p : Bytes) : Broker :=
  let (type, p) := rd8 p
  let (flags, p) := rd8 p
  match rdStr p with
  | none => b
  | some (vh, p) =>
    match rdStr p with
    | none => b
    | some (name, _) => brokerDeclareExchange b vh name type flags

/-- `CL_OP_BIND`: vhost, queue, exchange, routing key. -/
def applyBind (b : Broker) (p : Bytes) : Broker :=
  match rdStr p with
  | none => b
  | some (vh, p) =>
    match rdStr p with
    | none => b
    | some (queue, p) =>
      match rdStr p with
      | none => b
      | some (exchange, p) =>
        match rdStr p with
        | none => b
        | some (rkey, _) => brokerBind b vh queue exchange rkey

/-- `CL_OP_DELETE_QUEUE`. -/
def applyDeleteQueue (b : Broker) (p : Bytes) : Broker :=
  match rdStr p with
  | none => b
  | some (vh, p) =>
    match rdStr p with
    | none => b
    | some (name, _) => brokerDeleteQueue b vh name

/-- `CL_OP_PUBLISH`; the message gets the log index as its cluster id. -/
def applyPublish (b : Broker) (index : Nat) (p : Bytes) : Broker :=
  match rdStr p with
  | none => b
  | some (vh, p) =>
    match rdStr p with
    | none => b
    | some (exchange, p) =>
      match rdStr p with
      | none => b
      | some (rkey, p) =>
        match rdBlock p with
        | none => b
        | some (props, p) =>
          match rdBlock p with
          | none => b
          | some (body, _) =>
            brokerRoute b vh
              { exchange, routingKey := rkey, props, body, clusterId := index }

/-- `CL_OP_ACK`: the replicated consume watermark of one queue. -/
def applyAck (b : Broker) (p : Bytes) : Broker :=
  match rdStr p with
  | none => b
  | some (vh, p) =>
    match rdStr p with
    | none => b
    | some (name, p) =>
      if p.length < 8 then b
      else b.updQueue (vkey vh name) fun q => queueDrainConsumed q (beVal (p.take 8))

/-- `CL_OP_ADD_USER`. -/
def applyAddUser (s : AuthStore) (p : Bytes) : AuthStore :=
  match rdStr p with
  | none => s
  | some (user, p) =>
    match rdStr p with
    | none => s
    | some (hash, p) => authstoreAddUser s user hash (rd32 p).1

/-- `CL_OP_SET_PERM`. -/
def applySetPerm (s : AuthStore) (p : Bytes) : AuthStore :=
  match rdStr p with
  | none => s
  | some (user, p) =>
    match rdStr p with
    | none => s
    | some (vhost, p) =>
      match rdStr p with
      | none => s
      | some (conf, p) =>
        match rdStr p with
        | none => s
        | some (wr, p) =>
          match rdStr p with
          | none => s
          | some (rd, _) => authstoreSetPerm s user vhost conf wr rd

/-- `CL_OP_CLEAR_PERM`. -/
def applyClearPerm (s : AuthStore) (p : Bytes) : AuthStore :=
  match rdStr p with
  | none => s
  | some (user, p) =>
    match rdStr p with
    | none => s
    | some (vhost, _) => authstoreClearPerm s user vhost

/-- The `switch` of `apply_op`. -/
def applySwitch (s : Applied) (index : Nat) (op : ClOp) (p : Bytes) : Applied :=
  match op with
  | .noop => s
  | .publish => { s with broker := applyPublish s.broker index p }
  | .declareQueue => { s with broker := applyDeclareQueue s.broker p }
  | .declareExch => { s with broker := applyDeclareExch s.broker p }
  | .bind => { s with broker := applyBind s.broker p }
  | .ack => { s with broker := applyAck s.broker p }
  | .addVhost =>
    match rdStr p with
    | none => s
    | some (vhost, _) =>
      { s with auth := authstoreAddVhost s.auth vhost
               broker := brokerDeclareDefaultExchanges s.broker vhost }
  | .delVhost =>
    match rdStr p with
    | none => s
    | some (vhost, _) => { s with auth := authstoreDelVhost s.auth vhost }
  | .addUser => { s with auth := applyAddUser s.auth p }
  | .delUser =>
    match rdStr p with
    | none => s
    | some (user, _) => { s with auth := authstoreDelUser s.auth user }
  | .setPerm => { s with auth := applySetPerm s.auth p }
  | .clearPerm => { s with auth := applyClearPerm s.auth p }
  | .deleteQueue => { s with broker := applyDeleteQueue s.broker p }

/-- The ops `apply_op` hands to `topo_add`. -/
def ClOp.isTopo : ClOp → Bool
  | .declareQueue | .declareExch | .bind | .deleteQueue => true
  | .addVhost | .delVhost | .addUser | .delUser | .setPerm | .clearPerm => true
  | .noop | .publish | .ack => false

/-- `apply_op` on an entry with the given index, op type and payload. -/
def applyOp (s : Applied) (index op : Nat) (payload : Bytes) : Applied :=
  match ClOp.ofCode op with
  | none => s
  | some cop =>
    let s := applySwitch s index cop payload
    if cop.isTopo then { s with topo := topoAdd s.topo ⟨op, payload⟩ } else s

/-- The topology replay of `persist_load` and of `SNAP_BEGIN`: every record of the
accumulator is applied at the snapshot's base index. -/
def replayTopo (s : Applied) (base : Nat) (topo : List TopoRec) : Applied :=
  topo.foldl (fun s r => applyOp s base r.op r.data) { s with topo := topo }

end BeaverMQ
