import BeaverMQ.Lib.Locks

/-!
# BeaverMQ — what every function does with the locks

The lock skeleton of the broker: for each function that takes a lock, directly or through
what it calls, the acquisitions, releases and calls of its body in the order of the source.
A condition of the source is a free choice (`may`, `oneOf`, an early return `bail`), a loop
any number of rounds; an allocation that fails is one of the branches. Two failures are named,
because the locks a thread ends up with depend on them: a write of a method frame that fails
(`Failure.write`), and a table of the access store that cannot grow (`Failure.grow`, the early
return inside the macro `GROW`).

Function pointers are calls of what is passed: the only queue waiter is `dispatcher_queue_waiter`,
the only dead-letter callback `broker_dead_letter_cb`, the only shutdown hook `app_shutdown_all`;
`broker_foreach_queue` has one instance for each of its visitors. A call that reaches no lock but
the logger's stands as the line it may log.
-/

namespace BeaverMQ.Locks

open Locking Locking.Code

/-- The locks. `queue` stands for the lock of any queue, `pending` for the pending list of
any dispatcher and `conns` for the connection list of any worker. -/
inductive Lock where
  | broker
  | queue
  | pending
  | conns
  | propose
  | authstore
  | authlimit
  | logger
deriving DecidableEq

/-- The failures on which the locks held depend. -/
inductive Failure where
  | write
  | grow
deriving DecidableEq

/-- The visitors passed to `broker_foreach_queue`. -/
inductive QueueVisitor where
  | minLiveCb
  | purgeQueueCb
  | collectQueueCb
  | queueToJson
deriving DecidableEq

/-- The functions that reach a lock. -/
inductive Fn where
  -- logger.c, authlimit.c
  | logInit | logShutdown | logLog
  | authlimitRetryAfterMs | authlimitRecordFailure | authlimitRecordSuccess
  -- queue.c
  | queueSetLimits | queueMaxLength | queueMaxBytes | queueOverflow | queueDeadLetterInfo
  | queueSetDeadLetter | queueDeadLetter | queueEnqueue | queueRequeueInternal | queueDequeue
  | queueConsumeOnDeliver | queueConsumeOnAck | queueConsumeWatermark | queueSnapshotRefs
  | queueOldestLiveClusterId | queueConsumeMarkReplicated | queueDrainConsumed | queueDepth
  | queuePurge | queueAddWaiter | queueRemoveWaiter | queueWakeWaiters
  -- broker.c
  | brokerDeclareQueue | brokerDeclareExchange | brokerDeclareDefaultExchanges | brokerBind
  | brokerDeleteQueue | brokerRoute | brokerDeadLetterCb | brokerSetQueueDeadLetter
  | brokerGetQueue | brokerExchangeExists | sumQueueCb | brokerStats
  | queueVisit (v : QueueVisitor) | brokerForeachQueue (v : QueueVisitor)
  | brokerMinLiveClusterId | brokerForeachExchange
  -- authstore.c
  | authstoreSaveLocked | authstoreAddVhost | authstoreDelVhost | authstoreAddUser
  | authstoreDelUser | authstoreSetPerm | authstoreClearPerm | authstoreIsOpen | authstoreLoad
  | authstoreVhostExists | authstoreCanAccessVhost | authstoreLookupHash | authstoreUserTags
  | authstoreCheck | authstoreForeachVhost | authstoreForeachUser | authstoreForeachPerm
  -- dispatch.c
  | replicateWatermark | consumeTimerCb | dispatcherNotePull | dispatcherRequestClose
  | consumerDestroy | dispatcherFree | dispatcherNotify | dispatcherQueueWaiter | deliver
  | serviceGroup | onAsync | dispatcherAddConsumer | settleUnacked | dispatcherAck
  | dispatcherNack | dispatcherSetPrefetch | dispatcherResumeConn | dispatcherCancel
  | dispatcherRemoveConnection | dispatcherRemoveChannel
  -- net.c
  | connListPush | connListRemove | beaverServerForeachConn | onRead | onConnHandleClosed
  | beaverConnClose | onHeartbeatTimer | onHandshakeTimeout | onWrite | beaverConnSendOwned
  | beaverConnSendDelivery | beaverConnSend | onNewConnection | onMemoryTimer | onStatsTimer
  | onSignal | onShutdownAsync | onThrottleTimer | beaverServerShutdown
  -- protocol.c
  | chanReleaseGetUnacked | channelRemove | chanGetUnackedSettle | deleteExclusiveQueues
  | sendPublishConfirm | sendConnectionBlocked | sendConnectionUnblocked | protocolConnUnblock
  | pendingOpTimerCb | awaitClusterCommit | awaitPublishConfirm | protoClose | protoFatal
  | protocolSendMethod | protocolSendContent | sendMethod (args : Bool) | sendConnectionClose
  | sendChannelClose | permOk | requirePerm | requireOpen | requireChannel
  | sendConnectionStart | sendConnectionTune | authWorkAfterCb | handleConnection
  | handleChannel | handleExchange | handleQueue | handleConfirm | handleBasic
  | handleContentHeader | handleContentBody | sendBasicReturn | finalizePublish | handleMethod
  | dispatchFrame | protocolConnFree | protocolOnData
  -- cluster.c
  | snapshotWrite | snapApplyRecord | snapshotLoad | logCompactTo | persistLoad | persistInit
  | applyOp | applyCommitted | advanceCommit | snapStart | snapPump | sendAppend | pumpPeer
  | replicateToPeers | peerOnLinkUp | leaderFlush | becomeLeader | becomeCandidate
  | startPrevote | clDispatch | clDrainFrames | onPeerRead | clDial | onConnect
  | onInboundRead | onNewPeerConn | electionTimerCb | heartbeatTimerCb | fsyncTimerCb
  | requeueProposals | forwardBatchToLeader | drainInbox | proposeAsyncCb | fwdRetryTimerCb
  | clusterNodeNew | clusterNodeStart | clusterNodeStop | proposeInternal | clusterPropose
  | clusterProposeTracked | clusterReplicateDeclareQueue | clusterReplicateDeclareExchange
  | clusterReplicateBind | clusterReplicatePublish | clusterReplicatePublishTracked
  | clusterReplicateDeleteQueue | clusterReplicateConsume | clusterReplicateAddVhost
  | clusterReplicateDelVhost | clusterReplicateAddUser | clusterReplicateDelUser
  | clusterReplicateSetPerm | clusterReplicateClearPerm
  -- http.c
  | buildOverview | buildQueues | buildExchanges | buildConnections | onHttpWrite | httpRespond
  | httpAuthAfterCb | mgmtAuthStart | buildVhosts | buildUsers | buildPermissions | cfgApply
  | handleMgmt | httpDispatchLevel | handleRequest | onHttpConnTimeout | onHttpRead
  | onHttpConnection
  -- main.c; `main` is cut at the loop it runs
  | mainStart | startCluster | onHeartbeatTick | mainStop
deriving DecidableEq

/-- A lock skeleton of the broker. -/
abbrev Skel := Code Fn Lock Failure

def log : Skel := .call .logLog

/-- `pthread_mutex_lock`/`pthread_rwlock_wrlock` … unlock with no call in between. -/
def locked (l : Lock) : Skel := within l .exclusive []

/-- `pthread_rwlock_rdlock` … unlock with no call in between. -/
def readLocked (l : Lock) : Skel := within l .shared []

/-! ## Pieces of the large functions -/

/-- A settled Basic.Get or Basic.Consume delivery: back on its queue, or dead-lettered when it
was rejected and noted as consumed. -/
def settleOne : Skel :=
  oneOf [block [.call .queueRequeueInternal, may log],
    block [may (.call .queueDeadLetter), .call .queueConsumeOnAck]]

/-- What follows a proposal in the handlers of replicated declarations: nothing without an
answer asked for, an exception when it could not be proposed, or the wait for the commit. -/
def proposed (f : Fn) : Skel :=
  block [.call f, bail [], bail [.call .sendChannelClose], .call .awaitClusterCommit, .ret]

def startOk : Skel :=
  block [bail [.call .protoFatal], bail [.call .sendConnectionTune],
    .call .authstoreIsOpen, bail [log, .call .sendConnectionClose],
    bail [.call .authlimitRecordFailure, log, .call .sendConnectionClose],
    .call .authlimitRetryAfterMs, bail [log, .call .sendConnectionClose],
    bail [.call .protoFatal], .call .authstoreLookupHash, may (.call .protoFatal)]

def connectionOpen : Skel :=
  block [bail [.call .protoFatal], bail [.call .sendConnectionClose],
    may (block [.call .authstoreVhostExists, bail [.call .sendConnectionClose],
      .call .authstoreCanAccessVhost, bail [log, .call .sendConnectionClose]]),
    log, .call (.sendMethod true)]

def exchangeDeclare : Skel :=
  block [bail [.call .protoFatal], bail [.call .sendChannelClose],
    .call .requirePerm, bail [],
    -- passive
    may (block [may (.call .brokerExchangeExists), bail [.call .sendChannelClose],
      may (.call (.sendMethod false)), .ret]),
    bail [.call .sendChannelClose],
    -- durable in a cluster
    may (proposed .clusterReplicateDeclareExchange),
    .call .brokerDeclareExchange, bail [.call .sendChannelClose], bail [.call .protoFatal],
    log, may (.call (.sendMethod false))]

def queueDeclare : Skel :=
  block [bail [.call .protoFatal], bail [.call .sendChannelClose],
    .call .requirePerm, bail [],
    -- passive
    may (block [.call .brokerGetQueue, bail [.call .sendChannelClose], .call .queueDepth,
      may (.call (.sendMethod true)), .ret]),
    bail [.call .sendChannelClose],
    -- durable, not exclusive, in a cluster
    may (block [.call .brokerGetQueue, bail [.call .sendChannelClose],
      proposed .clusterReplicateDeclareQueue]),
    .call .brokerDeclareQueue, bail [.call .sendChannelClose], bail [.call .protoFatal], log,
    -- created with a policy
    may (block [.call .brokerGetQueue, may (block [.call .queueSetLimits, may log,
      may (.call .brokerSetQueueDeadLetter), log])]),
    -- exclusive
    may (block [.call .brokerGetQueue, bail [.call .sendChannelClose]]),
    may (.call (.sendMethod true))]

def queueBind : Skel :=
  block [bail [.call .protoFatal], bail [.call .sendChannelClose],
    .call .requirePerm, bail [], .call .requirePerm, bail [], .call .brokerGetQueue,
    -- durable queue in a cluster
    may (block [.call .brokerExchangeExists, bail [.call .sendChannelClose],
      proposed .clusterReplicateBind]),
    .call .brokerBind, bail [.call .sendChannelClose], log, may (.call (.sendMethod false))]

def queueDelete : Skel :=
  block [bail [.call .protoFatal], bail [.call .sendChannelClose],
    .call .requirePerm, bail [], .call .brokerGetQueue, bail [.call .sendChannelClose],
    -- owned by another connection, in use, not empty
    .call .queueDepth, bail [.call .sendChannelClose],
    -- durable queue in a cluster
    may (proposed .clusterReplicateDeleteQueue),
    .call .brokerDeleteQueue, log, may (.call (.sendMethod true))]

def basicConsume : Skel :=
  block [bail [.call .protoFatal], bail [.call .sendChannelClose], .call .requirePerm, bail [],
    .call .dispatcherAddConsumer, bail [.call .protoFatal], log,
    may (.call (.sendMethod true))]

def basicGet : Skel :=
  block [bail [.call .protoFatal], bail [.call .sendChannelClose], .call .requirePerm, bail [],
    .call .brokerGetQueue, may (.call .queueDequeue), bail [.call (.sendMethod true)],
    .call .queueDepth, .call (.sendMethod true), .call .protocolSendContent,
    oneOf [.call .dispatcherNotePull, may (.call .protoFatal)]]

def basicSettle (f : Fn) : Skel :=
  block [bail [.call .protoFatal], may (.call .chanGetUnackedSettle), may (.call f), log]

/-- The effect of a committed operation on the broker and the access store. -/
def applyEffect : Skel :=
  oneOf [
    block [.call .brokerDeclareQueue, may (block [.call .brokerGetQueue,
      may (block [.call .queueSetLimits, may (.call .brokerSetQueueDeadLetter)])])],
    .call .brokerDeclareExchange,
    .call .brokerBind,
    .call .brokerDeleteQueue,
    -- a published message, or the allocation failed and storage is marked failed
    oneOf [.call .brokerRoute, may log],
    block [.call .brokerGetQueue, may (.call .queueDrainConsumed)],
    block [.call .authstoreAddVhost, .call .brokerDeclareDefaultExchanges],
    .call .authstoreDelVhost,
    .call .authstoreAddUser,
    .call .authstoreDelUser,
    .call .authstoreSetPerm,
    .call .authstoreClearPerm,
    .skip]

/-- The frames of `cl_dispatch`. -/
def clusterFrame : Skel :=
  oneOf [
    -- HELLO, HELLO_ACK
    block [bail [log], .call .peerOnLinkUp, log],
    -- PREVOTE, PREVOTE_RESP
    .skip, block [may log, may (.call .becomeCandidate)],
    -- VOTE_REQ, VOTE_RESP
    block [may log, may log], block [may log, may (.call .becomeLeader)],
    -- APPEND, APPEND_RESP
    block [.loop log, may (.call .applyCommitted)],
    block [may log, bail [], may (.call .advanceCommit), .call .pumpPeer],
    -- FORWARD, FORWARD_ACK
    .loop (oneOf [may log, .call .clusterPropose]), .skip,
    -- SNAP_BEGIN, SNAP_CHUNK, SNAP_END, SNAP_ACK
    block [may log, bail [], log, may (.call (.brokerForeachQueue .purgeQueueCb)), may log,
      .loop (.call .applyOp)],
    block [bail [], .loop (.call .snapApplyRecord)],
    block [bail [], may (.call .snapshotWrite), log],
    block [may log, bail [], oneOf [block [log, .call .pumpPeer], .call .snapPump, .skip]],
    -- STATUS, and what is unknown
    may log, log]

/-! ## The table -/

/-- The lock skeleton of each function. -/
def body : Fn → Skel
  -- logger.c
  | .logInit | .logShutdown => locked .logger
  | .logLog => block [bail [], locked .logger]
  -- authlimit.c
  | .authlimitRetryAfterMs | .authlimitRecordFailure | .authlimitRecordSuccess =>
      block [bail [], locked .authlimit]
  -- queue.c
  | .queueSetLimits | .queueMaxLength | .queueMaxBytes | .queueOverflow | .queueDeadLetterInfo
  | .queueSetDeadLetter | .queueDequeue | .queueConsumeWatermark | .queueSnapshotRefs
  | .queueOldestLiveClusterId | .queueConsumeMarkReplicated | .queueDrainConsumed | .queueDepth
  | .queuePurge | .queueRemoveWaiter => locked .queue
  | .queueDeadLetter => may (.call .brokerDeadLetterCb)
  | .queueEnqueue =>
      -- the evicted messages are dead-lettered after the lock is released
      block [.acquire .queue .exclusive, bail [.release .queue], .release .queue,
        .loop (.call .queueDeadLetter)]
  | .queueRequeueInternal =>
      block [.acquire .queue .exclusive, bail [.release .queue], .release .queue]
  | .queueConsumeOnDeliver | .queueConsumeOnAck => block [bail [], locked .queue]
  | .queueAddWaiter =>
      block [.acquire .queue .exclusive, bail [.release .queue], bail [.release .queue],
        .release .queue]
  | .queueWakeWaiters => within .queue .exclusive [.loop (.call .dispatcherQueueWaiter)]
  -- broker.c
  | .brokerDeclareQueue | .brokerDeleteQueue => within .broker .exclusive [may (.call .queueDepth)]
  | .brokerDeclareExchange => locked .broker
  | .brokerDeclareDefaultExchanges =>
      block [.call .brokerDeclareExchange, .call .brokerDeclareExchange,
        .call .brokerDeclareExchange]
  | .brokerBind => within .broker .exclusive [may log]
  | .brokerRoute =>
      block [readLocked .broker, bail [],
        .loop (block [.call .queueEnqueue, may (.call .queueWakeWaiters)]), may log]
  | .brokerDeadLetterCb =>
      block [bail [log], bail [], bail [log], .call .brokerRoute, may log]
  | .brokerSetQueueDeadLetter => .call .queueSetDeadLetter
  | .brokerGetQueue | .brokerExchangeExists | .brokerForeachExchange => readLocked .broker
  | .sumQueueCb => .call .queueDepth
  | .brokerStats => within .broker .shared [.loop (.call .sumQueueCb)]
  | .queueVisit .minLiveCb => .call .queueOldestLiveClusterId
  | .queueVisit .purgeQueueCb => .call .queuePurge
  | .queueVisit .collectQueueCb => .skip
  | .queueVisit .queueToJson =>
      block [.call .queueDepth, .call .queueMaxLength, .call .queueMaxBytes,
        .call .queueOverflow, .call .queueDeadLetterInfo]
  | .brokerForeachQueue v => within .broker .shared [.loop (.call (.queueVisit v))]
  | .brokerMinLiveClusterId => .call (.brokerForeachQueue .minLiveCb)
  -- authstore.c
  | .authstoreSaveLocked => may log
  | .authstoreAddVhost =>
      -- GROW returns from the function, with the write lock still held
      block [bail [], .acquire .authstore .exclusive,
        may (block [.fails .grow .ret .skip, .call .authstoreSaveLocked]),
        .release .authstore]
  | .authstoreDelVhost | .authstoreDelUser | .authstoreClearPerm =>
      within .authstore .exclusive [may (.call .authstoreSaveLocked)]
  | .authstoreAddUser =>
      block [bail [], .acquire .authstore .exclusive, may (.fails .grow .ret .skip),
        .call .authstoreSaveLocked, .release .authstore]
  | .authstoreSetPerm =>
      block [bail [], .acquire .authstore .exclusive, may (.fails .grow .ret .skip),
        .call .authstoreSaveLocked, .release .authstore]
  | .authstoreIsOpen | .authstoreVhostExists | .authstoreCanAccessVhost | .authstoreUserTags
  | .authstoreCheck | .authstoreForeachVhost | .authstoreForeachUser | .authstoreForeachPerm =>
      readLocked .authstore
  | .authstoreLoad =>
      block [bail [locked .authstore], .loop (.call .authstoreAddVhost),
        .loop (.call .authstoreAddUser), .loop (.call .authstoreSetPerm), bail [log],
        locked .authstore, log]
  | .authstoreLookupHash => block [bail [], readLocked .authstore]
  -- dispatch.c
  | .replicateWatermark =>
      block [bail [], .call .queueConsumeWatermark,
        may (block [.call .queueConsumeMarkReplicated, may (.call .clusterReplicateConsume)])]
  | .consumeTimerCb => block [bail [], .loop (.call .replicateWatermark)]
  | .dispatcherNotePull =>
      block [bail [], .call .queueConsumeOnDeliver, .call .replicateWatermark]
  | .dispatcherRequestClose =>
      block [bail [], .acquire .pending .exclusive, bail [.release .pending], .release .pending]
  | .consumerDestroy =>
      block [.loop (oneOf [block [.call .queueRequeueInternal, may log],
          .call .queueConsumeOnAck]),
        .call .replicateWatermark,
        oneOf [.call .queueRemoveWaiter, .call .dispatcherNotify, .skip],
        may (.call .brokerDeleteQueue)]
  | .dispatcherFree => block [bail [], .loop (.call .consumerDestroy)]
  | .dispatcherNotify =>
      -- closing, already pending, no memory
      block [.acquire .pending .exclusive, bail [.release .pending], bail [.release .pending],
        bail [.release .pending], .release .pending]
  | .dispatcherQueueWaiter => .call .dispatcherNotify
  | .deliver =>
      block [bail [], oneOf [.call .beaverConnSendDelivery, .call .beaverConnSendOwned],
        bail [], .call .queueConsumeOnDeliver]
  | .serviceGroup =>
      .loop (block [bail [], .call .queueDequeue, bail [], .call .deliver,
        bail [.call .queueRequeueInternal, may log]])
  | .onAsync => block [locked .pending, .loop (may (.call .serviceGroup))]
  | .dispatcherAddConsumer =>
      block [.call .brokerGetQueue, bail [], may (.call .queueAddWaiter), log,
        .call .dispatcherNotify]
  | .settleUnacked =>
      .loop (block [.loop settleOne, may (.call .dispatcherNotify)])
  | .dispatcherAck => block [.call .settleUnacked, may log]
  | .dispatcherNack => block [.call .settleUnacked, log]
  | .dispatcherSetPrefetch => .loop (may (.call .dispatcherNotify))
  | .dispatcherResumeConn => block [bail [], .loop (may (.call .dispatcherNotify))]
  | .dispatcherCancel =>
      block [bail [], .loop (bail [log, .call .consumerDestroy])]
  | .dispatcherRemoveConnection =>
      block [bail [], .loop (may (block [log, .call .consumerDestroy]))]
  | .dispatcherRemoveChannel =>
      block [bail [], .loop (may (block [log, .call .consumerDestroy]))]
  -- net.c
  | .connListPush | .connListRemove | .beaverServerForeachConn => locked .conns
  | .onRead => oneOf [.call .protocolOnData, block [log, .call .beaverConnClose], .skip]
  | .onConnHandleClosed => block [bail [], .call .protocolConnFree]
  | .beaverConnClose =>
      block [bail [], may (.call .dispatcherRemoveConnection), .call .connListRemove, log]
  | .onHeartbeatTimer =>
      block [bail [], bail [log, .call .beaverConnClose], .call .beaverConnSend]
  | .onHandshakeTimeout => block [bail [], log, .call .beaverConnClose]
  | .onWrite => block [may log, may (.call .dispatcherResumeConn)]
  | .beaverConnSendOwned | .beaverConnSendDelivery => block [bail [], bail [log], bail [log]]
  | .beaverConnSend => block [bail [], bail [log], .call .beaverConnSendOwned]
  | .onNewConnection =>
      block [bail [log], bail [log], bail [log], bail [], bail [log], bail [log],
        .call .connListPush, bail [log, .call .beaverConnClose], log]
  | .onMemoryTimer | .onStatsTimer => may log
  | .onSignal => block [log, may (.call .beaverServerShutdown)]
  | .onShutdownAsync => .call .beaverServerShutdown
  | .onThrottleTimer =>
      -- the connections are told to go on while the list is locked
      block [bail [], within .conns .exclusive [.loop (may (.call .protocolConnUnblock))]]
  | .beaverServerShutdown =>
      -- the list is copied under the lock; the connections are closed after it
      block [bail [], locked .conns, log, .loop (.call .beaverConnClose),
        may (.call .dispatcherRequestClose)]
  -- protocol.c
  | .chanReleaseGetUnacked => .loop (block [.call .queueRequeueInternal, may log])
  | .channelRemove => .loop (bail [.call .chanReleaseGetUnacked])
  | .chanGetUnackedSettle => .loop settleOne
  | .deleteExclusiveQueues =>
      block [bail [], .loop (block [.call .brokerDeleteQueue, may log])]
  | .sendPublishConfirm | .sendConnectionStart => .call (.sendMethod true)
  | .sendConnectionBlocked => block [.call (.sendMethod true), log]
  | .sendConnectionUnblocked => block [.call (.sendMethod false), log]
  | .protocolConnUnblock => block [bail [], .call .sendConnectionUnblocked]
  | .pendingOpTimerCb =>
      block [bail [], bail [], bail [.call .sendPublishConfirm],
        oneOf [.call (.sendMethod false),
          block [.call .brokerGetQueue, may (.call .queueDepth), .call (.sendMethod true)],
          .call (.sendMethod true), .skip, .call .sendChannelClose]]
  | .awaitClusterCommit => bail [.call .sendChannelClose]
  | .awaitPublishConfirm => bail [.call .sendPublishConfirm]
  | .protoClose => block [bail [], .call .beaverConnClose]
  | .protoFatal => block [log, .call .protoClose]
  | .protocolSendMethod => may (.call .beaverConnSend)
  | .protocolSendContent =>
      block [may (.call .beaverConnSend), bail [],
        .loop (block [may (.call .beaverConnSend), bail []])]
  | .sendMethod true =>
      block [bail [.call .protoFatal], .call .protocolSendMethod,
        .fails .write (.call .protoFatal) .skip]
  | .sendMethod false =>
      block [.call .protocolSendMethod, .fails .write (.call .protoFatal) .skip]
  | .sendConnectionClose => block [.call (.sendMethod true), .call .protoClose]
  | .sendChannelClose =>
      block [.call (.sendMethod true), may (.call .dispatcherRemoveChannel),
        .call .channelRemove]
  | .permOk => block [bail [], .call .authstoreCheck]
  | .requirePerm => block [.call .permOk, bail [], log, .call .sendChannelClose]
  | .requireOpen => bail [.call .protoFatal]
  | .requireChannel => block [.call .requireOpen, bail [], bail [.call .protoFatal]]
  | .sendConnectionTune => block [log, .call (.sendMethod true)]
  | .authWorkAfterCb =>
      block [bail [], bail [.call .authlimitRecordFailure, log, .call .sendConnectionClose],
        .call .authlimitRecordSuccess, may (.call .authstoreUserTags),
        .call .sendConnectionTune]
  | .handleConnection =>
      block [bail [.call .protoFatal], bail [.call .protoFatal],
        oneOf [startOk, block [bail [.call .protoFatal], log], connectionOpen,
          block [log, .call (.sendMethod false), .call .protoClose], .call .protoClose,
          .call .protoFatal]]
  | .handleChannel =>
      block [.call .requireOpen, bail [],
        oneOf [block [bail [.call .protoFatal], log, .call (.sendMethod true)],
          block [.call .dispatcherRemoveChannel, .call .channelRemove, log,
            .call (.sendMethod false)],
          .skip, .call .protoFatal]]
  | .handleExchange =>
      block [.call .requireChannel, bail [], oneOf [exchangeDeclare, .call .protoFatal]]
  | .handleQueue =>
      block [.call .requireChannel, bail [],
        oneOf [queueDeclare, queueBind, queueDelete, .call .protoFatal]]
  | .handleConfirm =>
      block [.call .requireChannel, bail [], bail [.call .protoFatal],
        bail [.call .protoFatal], log, may (.call (.sendMethod false))]
  | .handleBasic =>
      block [.call .requireChannel, bail [],
        oneOf [
          block [bail [.call .protoFatal], .call .dispatcherSetPrefetch, log,
            .call (.sendMethod false)],
          block [bail [.call .protoFatal], may (.call .protoFatal)],
          basicConsume,
          block [bail [.call .protoFatal], .call .dispatcherCancel, log,
            may (.call (.sendMethod true))],
          basicGet, basicSettle .dispatcherAck, basicSettle .dispatcherNack,
          .call .protoFatal]]
  | .handleContentHeader =>
      block [bail [.call .protoFatal], bail [.call .protoFatal], bail [.call .protoFatal],
        bail [.call .protoFatal], may (.call .finalizePublish)]
  | .handleContentBody =>
      block [bail [.call .protoFatal], bail [.call .protoFatal], bail [.call .finalizePublish],
        bail [.call .protoFatal], may (.call .finalizePublish)]
  | .sendBasicReturn => block [.call (.sendMethod true), .call .protocolSendContent]
  | .finalizePublish =>
      block [.call .permOk, bail [log, .call .sendChannelClose],
        -- persistent, in a cluster
        may (block [oneOf [block [.call .clusterReplicatePublishTracked,
            may (.call .awaitPublishConfirm)], .call .clusterReplicatePublish],
          bail [.call .sendChannelClose]]),
        -- not replicated
        may (block [bail [.call .protoFatal], .call .brokerRoute,
          may (.call .sendPublishConfirm), may (.call .sendBasicReturn)]),
        may (.call .sendConnectionBlocked), log]
  | .handleMethod =>
      block [bail [.call .protoFatal],
        oneOf [.call .handleConnection, .call .handleChannel, .call .handleExchange,
          .call .handleQueue, .call .handleBasic, .call .handleConfirm, .call .protoFatal]]
  | .dispatchFrame =>
      block [
        bail [oneOf [.call .protoFatal, .call .handleContentHeader, .call .handleContentBody]],
        oneOf [.call .handleMethod, log, .call .protoFatal]]
  | .protocolConnFree =>
      block [bail [], .call .deleteExclusiveQueues, .loop (.call .chanReleaseGetUnacked)]
  | .protocolOnData =>
      block [bail [], bail [.call .protoFatal],
        may (block [bail [], bail [.call .beaverConnSend, .call .protoFatal], log,
          .call .sendConnectionStart]),
        .loop (block [bail [], bail [.call .protoFatal], .call .dispatchFrame])]
  -- cluster.c
  | .snapshotWrite =>
      block [bail [], may (block [.call (.brokerForeachQueue .collectQueueCb),
        .loop (block [.call .queueSnapshotRefs, may log])]), may log]
  | .snapApplyRecord =>
      block [bail [], .call .brokerGetQueue,
        may (block [.call .brokerDeclareQueue, .call .brokerGetQueue, bail []]),
        may (block [may log, .call .queueEnqueue])]
  | .snapshotLoad => block [bail [], .loop (.call .snapApplyRecord), may log]
  | .logCompactTo =>
      block [may (.call .brokerMinLiveClusterId), bail [], .call .snapshotWrite, bail [], log]
  | .persistLoad =>
      block [bail [], .call .snapshotLoad, .loop (.call .applyOp), may log, may log, may log]
  | .persistInit => block [bail [], bail [log], bail [log], .call .persistLoad]
  | .applyOp => block [bail [], applyEffect, may log, log]
  | .applyCommitted => .loop (may (.call .applyOp))
  | .advanceCommit => may (.call .applyCommitted)
  | .snapStart =>
      block [may (.call (.brokerForeachQueue .collectQueueCb)), bail [], bail [], log]
  | .snapPump =>
      .loop (block [.loop (block [.call .queueSnapshotRefs, bail [log]]), bail []])
  | .sendAppend | .clDial | .onConnect | .onNewPeerConn | .clusterNodeStop => may log
  | .pumpPeer =>
      block [bail [], bail [.call .snapPump], bail [.call .snapStart, .call .snapPump],
        .loop (.call .sendAppend)]
  | .replicateToPeers => .loop (.call .pumpPeer)
  | .peerOnLinkUp => block [.call .pumpPeer, may (.call .forwardBatchToLeader)]
  | .leaderFlush =>
      block [bail [], may log, .call .replicateToPeers, .call .advanceCommit]
  | .becomeLeader =>
      block [may log, log, .call .replicateToPeers,
        may (block [.call .authstoreVhostExists,
          may (block [.call .clusterReplicateAddVhost, .call .authstoreIsOpen, may log])])]
  | .becomeCandidate => block [may log, log, bail [.call .becomeLeader]]
  | .startPrevote => bail [.call .becomeCandidate]
  | .clDispatch => clusterFrame
  | .clDrainFrames => .loop (block [bail [log], bail [log], .call .clDispatch])
  | .onPeerRead =>
      block [bail [may log], may (block [.call .clDrainFrames, bail [], .call .leaderFlush])]
  | .onInboundRead => block [bail [], bail [log], .call .peerOnLinkUp, log]
  | .electionTimerCb => block [bail [], .call .startPrevote]
  | .heartbeatTimerCb =>
      block [bail [], .loop (may (block [.call .pumpPeer, may (.call .sendAppend)]))]
  | .fsyncTimerCb =>
      block [may log, may (.call .advanceCommit), may (.call .forwardBatchToLeader),
        may (.call .logCompactTo)]
  | .requeueProposals => block [bail [], locked .propose]
  | .forwardBatchToLeader => may (.call .requeueProposals)
  | .drainInbox =>
      block [locked .propose, bail [.call .forwardBatchToLeader],
        .loop (oneOf [may log, .call .clusterPropose]), .call .leaderFlush]
  | .proposeAsyncCb | .fwdRetryTimerCb => .call .drainInbox
  | .clusterNodeNew => block [bail [], bail [log], .call .persistInit, may log]
  | .clusterNodeStart => block [.loop (.call .clDial), log]
  | .proposeInternal => block [bail [], bail [], locked .propose]
  | .clusterPropose | .clusterProposeTracked => .call .proposeInternal
  | .clusterReplicateDeclareQueue | .clusterReplicateDeclareExchange | .clusterReplicateBind
  | .clusterReplicatePublishTracked | .clusterReplicateDeleteQueue =>
      block [bail [], .call .clusterProposeTracked]
  | .clusterReplicatePublish | .clusterReplicateConsume | .clusterReplicateAddVhost
  | .clusterReplicateDelVhost | .clusterReplicateAddUser | .clusterReplicateDelUser
  | .clusterReplicateSetPerm | .clusterReplicateClearPerm => block [bail [], .call .clusterPropose]
  -- http.c; the management server's own connection list has no lock
  | .buildOverview => .call .brokerStats
  | .buildQueues => .call (.brokerForeachQueue .queueToJson)
  | .buildExchanges => .call .brokerForeachExchange
  | .buildConnections => .loop (.call .beaverServerForeachConn)
  | .onHttpWrite | .onHttpConnection => may log
  | .httpRespond => block [bail [], may log]
  | .httpAuthAfterCb =>
      block [bail [],
        oneOf [.call .authlimitRecordFailure,
          block [.call .authlimitRecordSuccess, may (.call .authstoreUserTags)]],
        .call .httpDispatchLevel]
  | .mgmtAuthStart =>
      block [may (.call .authstoreIsOpen), bail [.call .httpDispatchLevel],
        bail [.call .httpDispatchLevel], .call .authlimitRetryAfterMs,
        bail [.call .httpDispatchLevel], bail [.call .httpRespond],
        .call .authstoreLookupHash, may (.call .httpRespond)]
  | .buildVhosts => may (.call .authstoreForeachVhost)
  | .buildUsers => may (.call .authstoreForeachUser)
  | .buildPermissions => may (.call .authstoreForeachPerm)
  | .cfgApply =>
      block [bail [], oneOf [.skip,
        .call .clusterReplicateAddVhost, .call .clusterReplicateDelVhost,
        .call .clusterReplicateAddUser, .call .clusterReplicateDelUser,
        .call .clusterReplicateSetPerm, .call .clusterReplicateClearPerm,
        block [.call .authstoreAddVhost, may (.call .brokerDeclareDefaultExchanges)],
        .call .authstoreDelVhost, .call .authstoreAddUser, .call .authstoreDelUser,
        .call .authstoreSetPerm, .call .authstoreClearPerm]]
  | .handleMgmt =>
      block [bail [], may (block [may (.call .cfgApply), .call .httpRespond])]
  | .httpDispatchLevel =>
      block [bail [], bail [.call .httpRespond],
        bail [.call .handleMgmt, may (.call .httpRespond)], bail [.call .httpRespond],
        oneOf [.skip, .call .buildOverview, .call .buildQueues, .call .buildExchanges,
          .call .buildConnections, .call .buildVhosts, .call .buildUsers,
          .call .buildPermissions],
        .call .httpRespond]
  | .handleRequest =>
      block [bail [.call .httpRespond], log, bail [.call .httpRespond], .call .mgmtAuthStart]
  | .onHttpConnTimeout => log
  | .onHttpRead =>
      oneOf [block [bail [.call .httpRespond], may (.call .handleRequest)], may log, .skip]
  -- main.c
  | .mainStart =>
      block [.call .logInit, .loop log, bail [log], .call .brokerDeclareDefaultExchanges,
        bail [log],
        may (block [oneOf [may (.call .authstoreLoad), log], .call .authstoreAddVhost,
          .call .authstoreIsOpen, may log]),
        .call .authstoreIsOpen, log, .loop log, bail [log],
        may (.call .startCluster), .loop log]
  | .startCluster =>
      block [bail [log], .call .clusterNodeNew, bail [log], .call .clusterNodeStart, log]
  | .onHeartbeatTick => may log
  | .mainStop => block [log, .loop (.call .dispatcherFree), log, .call .logShutdown]

/-! ## Threads -/

/-- The threads of the broker. The main thread starts the others, then is worker 0. -/
inductive Role where
  | worker
  | main
  | management
  | cluster
deriving DecidableEq

def workerCallbacks : List Fn :=
  [.onNewConnection, .onRead, .onWrite, .onConnHandleClosed, .onHeartbeatTimer,
    .onHandshakeTimeout, .onMemoryTimer, .onStatsTimer, .onSignal, .onShutdownAsync,
    .onThrottleTimer, .onAsync, .consumeTimerCb, .pendingOpTimerCb, .authWorkAfterCb,
    .onHeartbeatTick]

/-- What each thread runs, one after the other. -/
def entries : Role → List Fn
  | .worker => workerCallbacks
  | .main => .mainStart :: .mainStop :: workerCallbacks
  | .management =>
      [.onHttpConnection, .onHttpRead, .onHttpWrite, .onHttpConnTimeout, .httpAuthAfterCb]
  | .cluster =>
      [.onPeerRead, .onInboundRead, .onNewPeerConn, .onConnect, .clDial, .electionTimerCb,
        .heartbeatTimerCb, .fsyncTimerCb, .proposeAsyncCb, .fwdRetryTimerCb, .clusterNodeStop]

/-- A thread of the broker. -/
abbrev Thread := Locking.Thread Fn Lock Failure

def step (r : Role) : Thread → Move Fn → Option Thread :=
  Locking.step body fun f => f ∈ entries r

end BeaverMQ.Locks
