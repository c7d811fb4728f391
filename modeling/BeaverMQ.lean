import BeaverMQ.Storage.Recovery
import BeaverMQ.Storage.Image
import BeaverMQ.Storage.FailStop
import BeaverMQ.Queues.Cascade
import BeaverMQ.Queues.Floor
import BeaverMQ.Wire.Handshake
import BeaverMQ.Proposals.Acks
import BeaverMQ.Storage.RoundTrip
import BeaverMQ.Consensus.Placement
import BeaverMQ.Supervision.Shutdown
import BeaverMQ.Access.Backoff
import BeaverMQ.Topology.Bindings
import BeaverMQ.Proposals.Verdict
import BeaverMQ.Server.Confirming
import BeaverMQ.Concurrency.LockOrder
import BeaverMQ.Consensus.CommitRule
import BeaverMQ.Storage.Payloads
import BeaverMQ.Storage.Stream
import BeaverMQ.Wire.OpCodec
import BeaverMQ.Proposals.InboxDepth
import BeaverMQ.Wire.Draining
import BeaverMQ.Consensus.Prevote
import BeaverMQ.Storage.Compaction
import BeaverMQ.Consensus.Election
import BeaverMQ.Server.Service
import BeaverMQ.Server.Deletion
import BeaverMQ.Topology.HashMap
import BeaverMQ.Topology.Routes
import BeaverMQ.Topology.Topic
import BeaverMQ.Server.Isolation
import BeaverMQ.Queues.Tracker
import BeaverMQ.Access.HashSlots
import BeaverMQ.Access.Refusals
import BeaverMQ.Server.Settings
import BeaverMQ.Access.Persistence
import BeaverMQ.Access.Framing
import BeaverMQ.Access.Gate
import BeaverMQ.Access.Base64
import BeaverMQ.Queues.Ring
import BeaverMQ.Wire.Fields
import BeaverMQ.Access.Digest
