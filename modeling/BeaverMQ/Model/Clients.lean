import BeaverMQ.Model.Publish

/-!
# BeaverMQ — what a client names

The declared properties of queues, exchanges and bindings, as they come from a request of a
client or from an entry of the log, and the declaration of a queue with its policy.
-/

namespace BeaverMQ

/-- `BMQP_FLAG_DURABLE`, `BMQP_FLAG_EXCLUSIVE` and `BMQP_FLAG_AUTO_DELETE`. -/
def isDurable (flags : Nat) : Bool := flags.testBit 1
def isExclusive (flags : Nat) : Bool := flags.testBit 2
def isAutoDelete (flags : Nat) : Bool := flags.testBit 3

/-- The declared properties of a queue. -/
structure QueueDecl where
  vhost : Bytes
  name : Bytes
  flags : Nat
  maxLength : Nat := 0
  maxBytes : Nat := 0
  overflow : Overflow := .rejectPublish
  dlExchange : Bytes := []
  dlRoutingKey : Bytes := []
  deriving DecidableEq

def QueueDecl.key (d : QueueDecl) : Bytes := vkey d.vhost d.name

/-- The declared properties of an exchange. -/
structure ExchangeDecl where
  vhost : Bytes
  name : Bytes
  type : Nat
  flags : Nat
  deriving DecidableEq

def ExchangeDecl.key (d : ExchangeDecl) : Bytes := vkey d.vhost d.name

/-- What a bind names. -/
structure BindReq where
  vhost : Bytes
  queue : Bytes
  exchange : Bytes
  routingKey : Bytes

/-- `broker_declare_queue` and, on a new queue, `queue_set_limits` and
`broker_set_queue_dead_letter`. -/
def brokerDeclareWith (b : Broker) (d : QueueDecl) : Broker :=
  match brokerDeclareQueue b d.vhost d.name d.flags with
  | (b, false) => b
  | (b, true) =>
    b.updQueue d.key fun q =>
      { q with maxLength := d.maxLength, maxBytes := d.maxBytes, overflow := d.overflow
               dlExchange := d.dlExchange, dlRoutingKey := d.dlRoutingKey }

end BeaverMQ
