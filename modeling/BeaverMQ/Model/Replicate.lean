import BeaverMQ.Lib.Cursor
import BeaverMQ.Model.Publish

/-!
# BeaverMQ — the replicated operations

The `cluster_replicate_*` entry points write an operation down as the payload of a log entry;
`apply_op` walks the payload with a read pointer and carries the operation out. Here are the
writers, and `apply_op` with its pointer: an access behind the payload is a fault.
-/

namespace BeaverMQ

/-! ## The entry points -/

/-- `exchange_type_t`. -/
inductive ExchangeType
  | direct
  | fanout
  | topic
  deriving DecidableEq

def ExchangeType.code : ExchangeType → UInt8
  | .direct => 0
  | .fanout => 1
  | .topic => 2

namespace Encode

/-- The payload an entry point proposes; `none` is the refusal of a name over 250 bytes. -/
def encodeOp (names : List Bytes) (payload : Bytes) : Option Bytes :=
  if names.any fun s => 250 < s.length then none else some payload

/-- `cluster_replicate_declare_queue`; `none` is a `NULL` name. -/
def clusterReplicateDeclareQueue (vhost name : Bytes) (flags overflow : UInt8)
    (maxLength maxBytes : UInt64) (dlx dlxRkey : Option Bytes) : Option Bytes :=
  let dlx := dlx.getD []
  let dlxRkey := dlxRkey.getD []
  encodeOp [vhost, name, dlx, dlxRkey]
    ([flags] ++ wrStr vhost ++ wrStr name ++ [overflow] ++ Bytes.beBytes 8 maxLength.toNat ++
      Bytes.beBytes 8 maxBytes.toNat ++ wrStr dlx ++ wrStr dlxRkey)

def clusterReplicateDeclareExchange (vhost name : Bytes) (type : ExchangeType) (flags : UInt8) :
    Option Bytes :=
  encodeOp [vhost, name] ([type.code] ++ [flags] ++ wrStr vhost ++ wrStr name)

def clusterReplicateBind (vhost queue exchange routingKey : Bytes) : Option Bytes :=
  encodeOp [vhost, queue, exchange, routingKey]
    (wrStr vhost ++ wrStr queue ++ wrStr exchange ++ wrStr routingKey)

def clusterReplicateDeleteQueue (vhost queue : Bytes) : Option Bytes :=
  encodeOp [vhost, queue] (wrStr vhost ++ wrStr queue)

def clusterReplicateConsume (vhost queue : Bytes) (watermark : UInt64) : Option Bytes :=
  encodeOp [vhost, queue] (wrStr vhost ++ wrStr queue ++ Bytes.beBytes 8 watermark.toNat)

def clusterReplicateAddVhost (vhost : Bytes) : Option Bytes := encodeOp [vhost] (wrStr vhost)

def clusterReplicateDelVhost (vhost : Bytes) : Option Bytes := encodeOp [vhost] (wrStr vhost)

def clusterReplicateAddUser (user passHash : Bytes) (tags : UInt32) : Option Bytes :=
  encodeOp [user, passHash] (wrStr user ++ wrStr passHash ++ Bytes.beBytes 4 tags.toNat)

def clusterReplicateDelUser (user : Bytes) : Option Bytes := encodeOp [user] (wrStr user)

def clusterReplicateSetPerm (user vhost configure write read : Bytes) : Option Bytes :=
  encodeOp [user, vhost, configure, write, read]
    (wrStr user ++ wrStr vhost ++ wrStr configure ++ wrStr write ++ wrStr read)

def clusterReplicateClearPerm (user vhost : Bytes) : Option Bytes :=
  encodeOp [user, vhost] (wrStr user ++ wrStr vhost)

end Encode

/-- The bytes of the log entry: `propose_internal` keeps the length in a `uint32_t`. -/
def loggedPayload (payload : Bytes) : Bytes := payload.take (payload.length % 2 ^ 32)

/-! ## The read pointer of `apply_op` -/

section

open Cursor

variable (m : Bytes) (b : Broker)

def rd8At : Cursor Nat := do
  let room ← left m
  if 1 ≤ room then return (← next m).toNat else return 0

def rd16At : Cursor Nat := do
  let room ← left m
  if room < 2 then
    finish m
    return 0
  else
    let a ← next m
    let b ← next m
    return a.toNat * 256 + b.toNat

/-- `get_be32` and `get_be64` at the pointer, which then steps over the `w` bytes. -/
def getBeAt (w : Nat) : Cursor Nat := do
  return Bytes.beVal (← take m w)

def rd32At : Cursor Nat := do
  let room ← left m
  if room < 4 then
    finish m
    return 0
  else getBeAt m 4

/-- `rd_str` into a buffer of 256 bytes, read as a C string. -/
def rdStrAt : Cursor (Option Bytes) := do
  let n ← rd16At m
  let room ← left m
  if room < n ∨ 256 ≤ n then return none else return some (cstr (← take m n))

/-- `rd_str(..) == 0 &&` in front of what is done with the string. -/
def withStr {β : Type} (otherwise : β) (k : Bytes → Cursor β) : Cursor β := do
  match ← rdStrAt m with
  | none => return otherwise
  | some s => k s

/-- A length, checked against the payload, and the block behind it. -/
def withBlock {β : Type} (otherwise : β) (k : Bytes → Cursor β) : Cursor β := do
  let room ← left m
  if room < 4 then return otherwise
  else
    let n ← getBeAt m 4
    let room ← left m
    if room < n then return otherwise else k (← take m n)

/-- The trailing policy of a `CL_OP_DECLARE_QUEUE`, for a queue that was created. -/
def applyQueuePolicyAt (vh name : Bytes) : Cursor Broker := do
  let room ← left m
  if 17 ≤ room then
    let overflow ← rd8At m
    let maxLength ← getBeAt m 8
    let maxBytes ← getBeAt m 8
    withStr m b fun dlx => withStr m b fun dlxRkey =>
      return b.updQueue (vkey vh name) fun q =>
        { q with
          maxLength := maxLength
          maxBytes := maxBytes
          overflow := if overflow = 1 then .dropHead else .rejectPublish
          dlExchange := dlx
          dlRoutingKey := if dlx = [] then [] else dlxRkey }
  else return b

/-- `CL_OP_DECLARE_QUEUE`. -/
def applyDeclareQueueAt : Cursor Broker := do
  let flags ← rd8At m
  withStr m b fun vh => withStr m b fun name =>
    let (b, created) := brokerDeclareQueue b vh name flags
    if created then applyQueuePolicyAt m b vh name else return b

/-- `CL_OP_DECLARE_EXCH`. -/
def applyDeclareExchAt : Cursor Broker := do
  let type ← rd8At m
  let flags ← rd8At m
  withStr m b fun vh => withStr m b fun name =>
    return brokerDeclareExchange b vh name type flags

/-- `CL_OP_BIND`. -/
def applyBindAt : Cursor Broker :=
  withStr m b fun vh => withStr m b fun queue => withStr m b fun exchange =>
    withStr m b fun rkey => return brokerBind b vh queue exchange rkey

/-- `CL_OP_DELETE_QUEUE`. -/
def applyDeleteQueueAt : Cursor Broker :=
  withStr m b fun vh => withStr m b fun name => return brokerDeleteQueue b vh name

/-- `CL_OP_PUBLISH`. -/
def applyPublishAt (index : Nat) : Cursor Broker :=
  withStr m b fun vh => withStr m b fun exchange => withStr m b fun rkey =>
    withBlock m b fun props => withBlock m b fun body =>
      return brokerRoute b vh { exchange, routingKey := rkey, props, body, clusterId := index }

/-- `CL_OP_ACK`. -/
def applyAckAt : Cursor Broker :=
  withStr m b fun vh => withStr m b fun name => do
    let room ← left m
    if room < 8 then return b
    else
      let watermark ← getBeAt m 8
      return b.updQueue (vkey vh name) fun q => queueDrainConsumed q watermark

/-- `CL_OP_ADD_USER`. -/
def applyAddUserAt (s : AuthStore) : Cursor AuthStore :=
  withStr m s fun user => withStr m s fun hash => do
    let tags ← rd32At m
    return authstoreAddUser s user hash tags

/-- `CL_OP_SET_PERM`. -/
def applySetPermAt (s : AuthStore) : Cursor AuthStore :=
  withStr m s fun user => withStr m s fun vhost => withStr m s fun conf =>
    withStr m s fun wr => withStr m s fun rd => return authstoreSetPerm s user vhost conf wr rd

/-- `CL_OP_CLEAR_PERM`. -/
def applyClearPermAt (s : AuthStore) : Cursor AuthStore :=
  withStr m s fun user => withStr m s fun vhost => return authstoreClearPerm s user vhost

/-- The `switch` of `apply_op`. -/
def applySwitchAt (s : Applied) (index : Nat) : ClOp → Cursor Applied
  | .noop => return s
  | .publish => return { s with broker := ← applyPublishAt m s.broker index }
  | .declareQueue => return { s with broker := ← applyDeclareQueueAt m s.broker }
  | .declareExch => return { s with broker := ← applyDeclareExchAt m s.broker }
  | .bind => return { s with broker := ← applyBindAt m s.broker }
  | .ack => return { s with broker := ← applyAckAt m s.broker }
  | .addVhost => withStr m s fun vhost =>
    return { s with auth := authstoreAddVhost s.auth vhost
                    broker := brokerDeclareDefaultExchanges s.broker vhost }
  | .delVhost => withStr m s fun vhost => return { s with auth := authstoreDelVhost s.auth vhost }
  | .addUser => return { s with auth := ← applyAddUserAt m s.auth }
  | .delUser => withStr m s fun user => return { s with auth := authstoreDelUser s.auth user }
  | .setPerm => return { s with auth := ← applySetPermAt m s.auth }
  | .clearPerm => return { s with auth := ← applyClearPermAt m s.auth }
  | .deleteQueue => return { s with broker := ← applyDeleteQueueAt m s.broker }

/-- `apply_op`, with the pointer at the start of the payload; `none` is a read behind its end. -/
def applyOpAt (s : Applied) (index op : Nat) (payload : Bytes) : Option Applied :=
  match ClOp.ofCode op with
  | none => some s
  | some cop =>
    ((applySwitchAt payload s index cop).run 0).map fun (s, _) =>
      if cop.isTopo then { s with topo := topoAdd s.topo ⟨op, payload⟩ } else s

end

end BeaverMQ
