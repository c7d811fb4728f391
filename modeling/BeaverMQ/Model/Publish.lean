import BeaverMQ.Model.Replication

/-!
# BeaverMQ — publishing a message

The way of a `Basic.Publish` through `protocol.c`: the limits that the method frame, the
content header and the content body have to keep, the test for a persistent message, and the
`CL_OP_PUBLISH` payload that `encode_publish_op` proposes to the cluster for one.
-/

namespace BeaverMQ

open Bytes

/-- The cap on a body when `max_message_size` is unset. -/
def amqpMaxBodySize : Nat := 128 * 1024 * 1024

/-- The largest `frame_max` a connection negotiates. -/
def amqpDefaultFrameMax : Nat := 131072

/-- The `max_message_size` of `config_defaults`. -/
def defaultMaxMessageSize : Nat := 16 * 1024 * 1024

/-- A publish as `finalize_publish` finds it; the three names are C strings. -/
structure Publish where
  vhost : Bytes
  exchange : Bytes
  routingKey : Bytes
  props : Bytes
  body : Bytes
  deriving DecidableEq

/-- `body_limit` of `handle_content_header`. -/
def bodyLimit (maxMessageSize : Nat) : Nat :=
  if maxMessageSize = 0 then amqpMaxBodySize else maxMessageSize

/-- What the AMQP layer lets through: names that fit their buffers, a content header (class,
weight, body size, properties) within one frame, a body within the limit. -/
structure Publish.Admitted (p : Publish) (maxMessageSize frameMax : Nat) : Prop where
  vhost : p.vhost.length < 128 ∧ 0 ∉ p.vhost
  exchange : p.exchange.length < 256 ∧ ∀ c ∈ p.exchange, 0x20 ≤ c ∧ c ≠ 0x7f
  routingKey : p.routingKey.length < 256 ∧ 0 ∉ p.routingKey
  header : 12 + p.props.length ≤ frameMax
  frameMax : frameMax ≤ amqpDefaultFrameMax
  body : p.body.length ≤ bodyLimit maxMessageSize

/-- Skip a string with a length of `w` bytes in front; `none` is a reader error. -/
def skipStr (w : Nat) (bs : Bytes) : Option Bytes :=
  let n := beVal (bs.take w)
  if bs.length < w + n then none else some (bs.drop (w + n))

/-- `props_is_persistent`: walk the properties up to the delivery mode. -/
def propsIsPersistent (props : Bytes) : Bool :=
  let flags := beVal (props.take 2)
  if props.length < 2 || !flags.testBit 12 then false
  else
    let walk : Option Bytes := do
      let r ← if flags.testBit 15 then skipStr 1 (props.drop 2) else some (props.drop 2)
      let r ← if flags.testBit 14 then skipStr 1 r else some r
      if flags.testBit 13 then skipStr 4 r else some r
    match walk with
    | some (mode :: _) => mode = 2
    | _ => false

/-- `encode_publish_op`; `none` is the refusal of an over-long name. -/
def encodePublishOp (p : Publish) : Option Bytes :=
  if 250 < p.vhost.length || 250 < p.exchange.length || 250 < p.routingKey.length then none
  else some (wrStr p.vhost ++ wrStr p.exchange ++ wrStr p.routingKey ++
    beBytes 4 p.props.length ++ p.props ++ beBytes 4 p.body.length ++ p.body)

/-- The op that `finalize_publish` proposes on a clustered node: persistent messages only. -/
def publishOp (p : Publish) : Option Bytes :=
  if propsIsPersistent p.props then encodePublishOp p else none

/-- The message that applying the op with log index `index` routes to the queues. -/
def Publish.message (p : Publish) (index : Nat) : Msg where
  exchange := p.exchange
  routingKey := p.routingKey
  props := p.props
  body := p.body
  clusterId := index

end BeaverMQ
