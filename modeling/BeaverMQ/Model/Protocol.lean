import BeaverMQ.Model.Dispatcher

/-!
# BeaverMQ — the AMQP protocol machine (`protocol.c`)

The handlers of `protocol.c` as programs over the atomic actions, with the protocol state of the
connection passed along. Logging, metrics and the heartbeat timer are left out; the texts and
codes of the exceptions are kept.
-/

namespace BeaverMQ.Amqp

open Bytes

/-! ## Classes and methods -/

def classConnection : Nat := 10
def classChannel : Nat := 20
def classExchange : Nat := 40
def classQueue : Nat := 50
def classConfirm : Nat := 85

def connectionStart : Nat := 10
def connectionStartOk : Nat := 11
def connectionTune : Nat := 30
def connectionTuneOk : Nat := 31
def connectionOpen : Nat := 40
def connectionOpenOk : Nat := 41
def connectionClose : Nat := 50
def connectionCloseOk : Nat := 51
def connectionBlocked : Nat := 60
def connectionUnblocked : Nat := 61
def channelOpen : Nat := 10
def channelOpenOk : Nat := 11
def channelClose : Nat := 40
def channelCloseOk : Nat := 41
def exchangeDeclare : Nat := 10
def exchangeDeclareOk : Nat := 11
def queueDeclare : Nat := 10
def queueDeclareOk : Nat := 11
def queueBind : Nat := 20
def queueBindOk : Nat := 21
def queueDelete : Nat := 40
def queueDeleteOk : Nat := 41
def basicQos : Nat := 10
def basicQosOk : Nat := 11
def basicConsume : Nat := 20
def basicConsumeOk : Nat := 21
def basicCancel : Nat := 30
def basicCancelOk : Nat := 31
def basicPublish : Nat := 40
def basicReturn : Nat := 50
def basicGet : Nat := 70
def basicGetOk : Nat := 71
def basicGetEmpty : Nat := 72
def basicAck : Nat := 80
def basicReject : Nat := 90
def basicNack : Nat := 120
def confirmSelect : Nat := 10
def confirmSelectOk : Nat := 11

def amqpChannelMax : Nat := 2047
def amqpHeartbeatSeconds : Nat := 60
def clusterWaitTimeoutMs : Nat := 5000

/-- `BMQP_FLAG_PASSIVE` and the no-wait bit of a declare. -/
def isPassive (bits : Nat) : Bool := bits.testBit 0
def isNoWait (bits : Nat) : Bool := bits.testBit 4

/-! ## Protocol state -/

/-- `proto_advance`: the state moves forward only. -/
def Proto.advance (p : Proto) (s : State) : Proto :=
  if p.state = .closing ∨ s.rank ≤ p.state.rank then p else { p with state := s }

def Proto.channelFind (p : Proto) (ch : Nat) : Option Chan := p.channels.find? fun c => c.id = ch

def Proto.updChannel (p : Proto) (ch : Nat) (f : Chan → Chan) : Proto :=
  { p with channels := p.channels.map fun c => if c.id = ch then f c else c }

def Proto.publishReset (p : Proto) : Proto :=
  { p with
    pubActive := false, pubHaveHeader := false, pubMandatory := false, pubBodySize := 0
    pubBody := none, pubProps := [] }

def Proto.pubBodyReceived (p : Proto) : Nat := p.pubBody.elim 0 List.length

/-- `cancel_pending_ops` of one channel. -/
def Proto.cancelPendingOps (p : Proto) (ch : Nat) : Proto :=
  { p with pendingOps := p.pendingOps.filter fun op => op.channel ≠ ch }

/-- `track_exclusive_queue`. -/
def Proto.trackExclusive (p : Proto) (name : Bytes) : Proto :=
  if name ∈ p.exclQueues then p else { p with exclQueues := p.exclQueues ++ [name] }

/-! ## Closing and sending -/

variable (cfg : Cfg) (p : Proto) (ch : Nat)

def protoClose : Proc Proto := do
  if p.state = .closing then return p
  else
    connClose cfg p.conn
    return { p with state := .closing }

/-- `proto_fatal` without its log line. -/
def protoFatal : Proc Proto := protoClose cfg p

/-- The frame of `protocol_send_method`. -/
def methodFrame (classId methodId : Nat) (args : Bytes) : Bytes :=
  frameWrite frameMethod ch (beBytes 2 classId ++ beBytes 2 methodId ++ args)

def sendMethod (classId methodId : Nat) (args : Bytes) : Proc Proto := do
  let sent ← act (.send p.conn (methodFrame ch classId methodId args))
  if sent then return p else protoFatal cfg p

/-- The body frames of `protocol_send_content`, up to the first that cannot be written. -/
def sendFrames (c : Nat) : List Bytes → Proc Unit
  | [] => return ()
  | f :: fs => do
    let sent ← act (.send c f)
    if sent then sendFrames c fs else return ()

/-- The frames of `protocol_send_content`. -/
def contentFrames (frameMax : Nat) (m : Msg) : List Bytes :=
  let fmax := if frameMax < 1024 then amqpDefaultFrameMax else frameMax
  frameWrite frameHeader ch (contentHeader m) ::
    bodyFrames ch (fmax - frameOverhead) m.body.length m.body

/-- `protocol_send_content`. -/
def sendContent (c ch frameMax : Nat) (m : Msg) : Proc Unit :=
  sendFrames c (contentFrames ch frameMax m)

def sendConnectionClose (code : Nat) (text : Bytes) : Proc Proto := do
  let p ← sendMethod cfg p 0 classConnection connectionClose
    (beBytes 2 code ++ putShortstr text ++ beBytes 2 0 ++ beBytes 2 0)
  protoClose cfg p

def chanReleaseGetUnacked (c ch : Nat) : Proc Unit := do
  let gets ← ask (.gets c ch)
  gets.forM fun _ => act (.releaseGet c ch)

def channelRemove : Proc Proto := do
  match p.channels.findIdx? fun c => c.id = ch with
  | none => return p
  | some i =>
    chanReleaseGetUnacked p.conn ch
    return { p with channels := p.channels.swapRemove i }

/-- What a channel leaves behind: `cancel_pending_ops`, `dispatcher_remove_channel` and
`channel_remove`. -/
def channelTeardown : Proc Proto := do
  dispatcherRemoveChannel cfg p.conn ch
  channelRemove (p.cancelPendingOps ch) ch

def sendChannelClose (code : Nat) (text : Bytes) (classId methodId : Nat) : Proc Proto := do
  let p ← sendMethod cfg p ch classChannel channelClose
    (beBytes 2 code ++ putShortstr text ++ beBytes 2 classId ++
      beBytes 2 methodId)
  channelTeardown cfg p ch

/-! ## Guards -/

def permOk (kind : AuthKind) (object : Bytes) : Proc Bool := do
  if cfg.auth then ask (.authCheck p.user p.vhost kind object) else return true

/-- `require_perm` in front of the rest of a handler. -/
def withPerm (kind : AuthKind) (object : Bytes)
    (classId methodId : Nat) (rest : Proc Proto) : Proc Proto := do
  let ok ← permOk cfg p kind object
  if ok then rest
  else
    sendChannelClose cfg p ch 403
      (ascii "ACCESS_REFUSED - access to '" ++ object ++ ascii "' in vhost '" ++ p.vhost ++
        ascii "' refused for user '" ++ p.user ++ ascii "'") classId methodId

/-- `require_open` in front of the rest of a handler. -/
def withOpen (rest : Proc Proto) : Proc Proto :=
  if p.connectionOpen then rest else protoFatal cfg p

/-- `require_channel` in front of the rest of a handler. -/
def withChannel (rest : Proc Proto) : Proc Proto :=
  withOpen cfg p (if ch = 0 ∨ (p.channelFind ch).isNone then protoFatal cfg p else rest)

/-! ## Deferred answers -/

def awaitClusterCommit (seq classId methodId : Nat) (kind : PendingKind)
    (qname : Bytes) (depth : Nat) : Proc Proto := do
  let now ← ask .now
  let op : PendingOp :=
    { seq, channel := ch, classId, methodId, kind, qname, depth
      deadline := now + clusterWaitTimeoutMs }
  return { p with pendingOps := op :: p.pendingOps }

def awaitPublishConfirm (seq tag : Nat) : Proc Proto := do
  let now ← ask .now
  let op : PendingOp :=
    { seq, channel := ch, kind := .publishConfirm, confirmTag := tag
      deadline := now + clusterWaitTimeoutMs }
  return { p with pendingOps := op :: p.pendingOps }

def declareOkArgs (qname : Bytes) (depth consumers : Nat) : Bytes :=
  putShortstr qname ++ beBytes 4 depth ++ beBytes 4 consumers

def sendPublishConfirm (tag : Nat) (nack : Bool) : Proc Proto :=
  sendMethod cfg p ch classBasic (if nack then basicNack else basicAck)
    (beBytes 8 tag ++ beBytes 1 0)

def sendCommitted (op : PendingOp) : Proc Proto := do
  match op.kind with
  | .exchangeDeclareOk => sendMethod cfg p op.channel classExchange exchangeDeclareOk []
  | .queueDeclareOk =>
    let depth ← do
      match ← ask (.getQueue p.vhost op.qname) with
      | none => pure op.depth
      | some r => ask (.depth r)
    sendMethod cfg p op.channel classQueue queueDeclareOk (declareOkArgs op.qname depth 0)
  | .queueBindOk => sendMethod cfg p op.channel classQueue queueBindOk []
  | .queueDeleteOk =>
    sendMethod cfg p op.channel classQueue queueDeleteOk (beBytes 4 op.depth)
  | .publishConfirm => return p

/-- `pending_op_timer_cb` of the `i`-th op. -/
def pendingOpTimerCb (i : Nat) : Proc Proto := do
  match p.pendingOps[i]? with
  | none => return p
  | some op =>
    let st ← ask (.proposalStatus op.seq)
    let now ← ask .now
    if st = .pending ∧ now < op.deadline then return p
    else
      let p := { p with pendingOps := p.pendingOps.eraseIdx i }
      if op.kind = .publishConfirm then
        sendPublishConfirm cfg p op.channel op.confirmTag (st ≠ .committed)
      else if st = .committed then sendCommitted cfg p op
      else
        sendChannelClose cfg p op.channel 541
          (ascii "INTERNAL_ERROR - cluster commit failed or timed out") op.classId op.methodId

/-! ## Connection class -/

/-- A string and a boolean field of a table. -/
def putTableStr (key val : Bytes) : Bytes := putShortstr key ++ [0x53] ++ putLongstr val

def putTableBool (key : Bytes) : Bytes := putShortstr key ++ [0x74, 1]

/-- `put_server_properties`. -/
def serverProperties : Bytes :=
  putTableStr (ascii "product") (ascii "BeaverMQ") ++
    putTableStr (ascii "version") (ascii "1.0.0") ++
    putTableStr (ascii "platform") (ascii "C") ++
    putShortstr (ascii "capabilities") ++ [0x46] ++
    putLongstr (putTableBool (ascii "publisher_confirms") ++ putTableBool (ascii "basic.nack") ++
      putTableBool (ascii "connection.blocked"))

def sendConnectionStart : Proc Proto :=
  sendMethod cfg p 0 classConnection connectionStart
    ([0, 9] ++ putLongstr serverProperties ++ putLongstr (ascii "PLAIN") ++
      putLongstr (ascii "en_US"))

/-- `send_connection_tune`: the identity is recorded here and nowhere else. -/
def sendConnectionTune (user : Bytes) (tags : Nat) : Proc Proto :=
  sendMethod cfg { p with user, userTags := tags } 0 classConnection connectionTune
    (beBytes 2 amqpChannelMax ++ beBytes 4 amqpDefaultFrameMax ++
      beBytes 2 amqpHeartbeatSeconds)

def handleStartOk (r : Bytes) : Proc Proto := do
  match readStartOk r with
  | none => protoFatal cfg p
  | some resp =>
    let (user, pass) := saslPlain resp
    if !cfg.auth then sendConnectionTune cfg p user 0
    else
      let fresh ← ask .authIsOpen
      if fresh then
        sendConnectionClose cfg p 403 (ascii ("ACCESS_REFUSED - no users configured; create " ++
          "the first admin with 'beavermq add-user'"))
      else if user = [] then
        sendConnectionClose cfg p 403 (ascii "ACCESS_REFUSED - login refused")
      else
        let admitted ← ask .authAdmits
        if !admitted then
          sendConnectionClose cfg p 403 (ascii "ACCESS_REFUSED - too many attempts; retry later")
        else
          let stored ← ask (.lookupHash user)
          return { p with pendingAuth := some { user, pass, stored } }

/-- `auth_work_cb` and `auth_work_after_cb`. -/
def authWorkAfterCb : Proc Proto := do
  match p.pendingAuth with
  | none => return p
  | some w =>
    let matched ← match w.stored with
      | none => pure false
      | some stored => ask (.passwordMatches w.user stored w.pass)
    let p := { p with pendingAuth := none }
    if matched then
      let tags ← if cfg.auth then ask (.userTags w.user) else pure 0
      sendConnectionTune cfg p w.user tags
    else sendConnectionClose cfg p 403 (ascii "ACCESS_REFUSED - login refused")

/-- The `frame_max` that a `Connection.Tune-Ok` settles on. -/
def tuneFrameMax (frameMax : Nat) : Nat :=
  if frameMax = 0 ∨ amqpDefaultFrameMax < frameMax then amqpDefaultFrameMax else frameMax

def handleTuneOk (r : Bytes) : Proc Proto := do
  match readTuneOk r with
  | none => protoFatal cfg p
  | some (channelMax, frameMax, heartbeat) =>
    act (.setFrameMax p.conn (tuneFrameMax frameMax))
    return { p with channelMax, frameMax := tuneFrameMax frameMax, heartbeat }

def handleConnectionOpen (r : Bytes) : Proc Proto := do
  match readOpen r with
  | none => protoFatal cfg p
  | some vh =>
    let p := { p with vhost := copyStr 128 vh }
    if !nameOk p.vhost then
      sendConnectionClose cfg p 530 (ascii "NOT_ALLOWED - illegal vhost name")
    else
      let found ← if cfg.auth then ask (.vhostExists p.vhost) else pure true
      if !found then sendConnectionClose cfg p 530 (ascii "NOT_ALLOWED - vhost not found")
      else
        let access ← if cfg.auth then ask (.canAccessVhost p.user p.vhost) else pure true
        if !access then
          sendConnectionClose cfg p 530 (ascii "NOT_ALLOWED - access to vhost refused")
        else
          sendMethod cfg { p with connectionOpen := true } 0 classConnection connectionOpenOk
            (putShortstr [])

def handleConnection (method : Nat) (r : Bytes) : Proc Proto := do
  if ch ≠ 0 then protoFatal cfg p
  else if p.pendingAuth.isSome then protoFatal cfg p
  else if method = connectionStartOk then handleStartOk cfg p r
  else if method = connectionTuneOk then handleTuneOk cfg p r
  else if method = connectionOpen then handleConnectionOpen cfg p r
  else if method = connectionClose then
    let p ← sendMethod cfg p 0 classConnection connectionCloseOk []
    protoClose cfg p
  else protoClose cfg p  -- `Connection.Close-Ok`, or a method that is not expected

/-! ## Channel class -/

def handleChannel (method : Nat) : Proc Proto :=
  withOpen cfg p do
    if method = channelOpen then
      if ch = 0 ∨ amqpChannelMax < ch ∨ (p.channelFind ch).isSome then protoFatal cfg p
      else
        let p := ({ p with channels := p.channels ++ [{ id := ch }] } : Proto).advance .channelOpen
        sendMethod cfg p ch classChannel channelOpenOk (putLongstr [])
    else if method = channelClose then
      let p ← channelTeardown cfg p ch
      sendMethod cfg p ch classChannel channelCloseOk []
    else if method = channelCloseOk then return p
    else protoFatal cfg p

/-! ## Exchange class -/

/-- `Exchange.Declare` of a legal name with permission. -/
def exchangeDeclareNamed (bits : Nat) (ename etype : Bytes) : Proc Proto := do
  let close (p : Proto) (code : Nat) (text : Bytes) : Proc Proto :=
    sendChannelClose cfg p ch code text classExchange exchangeDeclare
  let ok (p : Proto) : Proc Proto :=
    if isNoWait bits then return p
    else sendMethod cfg p ch classExchange exchangeDeclareOk []
  if isPassive bits then
    let found ← if ename = [] then pure true else ask (.exchangeExists p.vhost ename)
    if found then ok p
    else
      close p 404 (ascii "NOT_FOUND - no exchange '" ++ ename ++ ascii "' in vhost '" ++
        p.vhost ++ ascii "'")
  else
    match exchangeTypeFromName etype with
    | none => close p 503 (ascii "COMMAND_INVALID - unknown exchange type '" ++ etype ++ ascii "'")
    | some xtype =>
      if cfg.cluster && isDurable bits then
        let seq ← act (.propose (.declareExchange
          { vhost := p.vhost, name := ename, type := xtype, flags := bits &&& 0x0E }))
        if isNoWait bits then return p
        else if seq = 0 then
          close p 541 (ascii "INTERNAL_ERROR - failed to replicate Exchange.Declare")
        else
          awaitClusterCommit p ch seq classExchange exchangeDeclare .exchangeDeclareOk [] 0
      else
        match ← act (.declareExchange p.vhost ename xtype (bits &&& 0x0E)) with
        | none =>
          close p 406
            (ascii "PRECONDITION_FAILED - exchange already declared with different type/flags")
        | some _ => ok p

def handleExchange (method : Nat) (r : Bytes) : Proc Proto :=
  withChannel cfg p ch do
    if method = exchangeDeclare then
      match readExchangeDeclare r with
      | none => protoFatal cfg p
      | some (ex, ty, bits) =>
        let ename := copyStr 256 ex
        if !nameOk ename then
          sendChannelClose cfg p ch 406 (ascii "PRECONDITION_FAILED - illegal exchange name")
            classExchange exchangeDeclare
        else
          let p := p.advance .active
          withPerm cfg p ch .configure ename classExchange exchangeDeclare
            (exchangeDeclareNamed cfg p ch bits ename (copyStr 32 ty))
    else protoFatal cfg p

/-! ## Queue class -/

def queueDeclarePassive (bits : Nat) (qname : Bytes) : Proc Proto := do
  match ← ask (.getQueue p.vhost qname) with
  | none =>
    sendChannelClose cfg p ch 404 (ascii "NOT_FOUND - no queue '" ++ qname ++
      ascii "' in vhost '" ++ p.vhost ++ ascii "'") classQueue queueDeclare
  | some r =>
    let depth ← ask (.depth r)
    let consumers ← ask (.consumerCount r)
    if isNoWait bits then return p
    else
      sendMethod cfg p ch classQueue queueDeclareOk (declareOkArgs qname depth consumers.toNat)

/-- The declaration that `Queue.Declare` proposes to the cluster. -/
def QueueArgs.decl (qa : QueueArgs) (vhost name : Bytes) (flags : Nat) : QueueDecl where
  vhost := vhost
  name := name
  flags := flags
  maxLength := qa.maxLength.getD 0
  maxBytes := qa.maxBytes.getD 0
  overflow := qa.policy
  dlExchange := qa.dlx.getD []
  dlRoutingKey := if qa.dlx.isSome then qa.dlxRkey else []

/-- `Queue.Declare` of a durable queue in a cluster: proposed, and created when it commits. -/
def queueDeclareCluster (bits : Nat) (qname : Bytes) (qa : QueueArgs) : Proc Proto := do
  let close (p : Proto) (code : Nat) (text : Bytes) : Proc Proto :=
    sendChannelClose cfg p ch code text classQueue queueDeclare
  let existing ← ask (.getQueue p.vhost qname)
  if existing.any fun r => r.flags ≠ bits &&& 0x0E then
    close p 406 (ascii "PRECONDITION_FAILED - queue already declared with different flags")
  else
    let seq ← act (.propose (.declareQueue (qa.decl p.vhost qname (bits &&& 0x0E))))
    if isNoWait bits then return p
    else if seq = 0 then
      close p 541 (ascii "INTERNAL_ERROR - failed to replicate Queue.Declare")
    else awaitClusterCommit p ch seq classQueue queueDeclare .queueDeclareOk qname 0

/-- The policy of a queue that this declare created. -/
def applyQueueArgs (qname : Bytes) (qa : QueueArgs) : Proc Unit := do
  if qa.overflow.isSome || qa.maxLength.isSome || qa.maxBytes.isSome || qa.dlx.isSome then
    match ← ask (.getQueue p.vhost qname) with
    | none => return ()
    | some r =>
      act (.setLimits r (qa.maxLength.getD 0) (qa.maxBytes.getD 0) qa.policy)
      match qa.dlx with
      | none => return ()
      | some dlx => act (.setDeadLetter r dlx qa.dlxRkey)
  else return ()

/-- The end of a local `Queue.Declare`: the owner of an exclusive queue is recorded, and the
declare answered. -/
def queueDeclareOwner (bits : Nat) (qname : Bytes) (depth : Nat) : Proc Proto := do
  let ok (p : Proto) : Proc Proto :=
    if isNoWait bits then return p
    else sendMethod cfg p ch classQueue queueDeclareOk (declareOkArgs qname depth 0)
  if isExclusive bits then
    match ← ask (.getQueue p.vhost qname) with
    | none => ok p
    | some r =>
      let owner ← ask (.exclusiveOwner r)
      if owner ≠ 0 ∧ owner ≠ p.conn then
        sendChannelClose cfg p ch 405
          (ascii "RESOURCE_LOCKED - queue is exclusive to another connection")
          classQueue queueDeclare
      else
        if owner = 0 then act (.setExclusiveOwner r p.conn)
        ok (p.trackExclusive qname)
  else ok p

/-- `Queue.Declare` on this node alone. -/
def queueDeclareLocal (bits : Nat) (qname : Bytes) (qa : QueueArgs) : Proc Proto := do
  match ← act (.declareQueue p.vhost qname (bits &&& 0x0E)) with
  | none =>
    sendChannelClose cfg p ch 406
      (ascii "PRECONDITION_FAILED - queue already declared with different flags")
      classQueue queueDeclare
  | some (depth, created) =>
    if created then applyQueueArgs p qname qa
    queueDeclareOwner cfg p ch bits qname depth

/-- `Queue.Declare` of a legal or generated name. -/
def queueDeclareNamed (bits : Nat) (args qname : Bytes) : Proc Proto :=
  let p := p.advance .active
  withPerm cfg p ch .configure qname classQueue queueDeclare <|
    if isPassive bits then queueDeclarePassive cfg p ch bits qname
    else
      let qa := parseQueueArgs args
      if qa.dlx.any fun dlx => !nameOk dlx then
        sendChannelClose cfg p ch 406 (ascii "PRECONDITION_FAILED - illegal x-dead-letter-exchange")
          classQueue queueDeclare
      else if cfg.cluster && isDurable bits && !isExclusive bits then
        queueDeclareCluster cfg p ch bits qname qa
      else queueDeclareLocal cfg p ch bits qname qa

def handleQueueDeclare (r : Bytes) : Proc Proto := do
  match readQueueDeclare r with
  | none => protoFatal cfg p
  | some (q, bits, args) =>
    let qname := copyStr 256 q
    if qname = [] then
      let seq ← act (.nextSeq p.conn)
      queueDeclareNamed cfg p ch bits args
        (ascii "amq.gen-" ++ decimal p.conn ++ ascii "-" ++ decimal seq)
    else if !nameOk qname then
      sendChannelClose cfg p ch 406 (ascii "PRECONDITION_FAILED - illegal queue name")
        classQueue queueDeclare
    else queueDeclareNamed cfg p ch bits args qname

/-- `Queue.Bind` of legal names with permission. -/
def queueBindNamed (qname ename key : Bytes) (noWait : Bool) : Proc Proto := do
  let close (p : Proto) (code : Nat) (text : Bytes) : Proc Proto :=
    sendChannelClose cfg p ch code text classQueue queueBind
  let bq ← ask (.getQueue p.vhost qname)
  if cfg.cluster && bq.any fun r => isDurable r.flags then
    let found ← ask (.exchangeExists p.vhost ename)
    if !found then
      close p 404 (ascii "NOT_FOUND - no exchange '" ++ ename ++ ascii "' in vhost '" ++
        p.vhost ++ ascii "'")
    else
      let seq ← act (.propose (.bind
        { vhost := p.vhost, queue := qname, exchange := ename, routingKey := key }))
      if noWait then return p
      else if seq = 0 then close p 541 (ascii "INTERNAL_ERROR - failed to replicate Queue.Bind")
      else awaitClusterCommit p ch seq classQueue queueBind .queueBindOk [] 0
  else
    let bound ← act (.bind p.vhost qname ename key)
    if !bound then
      close p 404 (ascii "NOT_FOUND - no queue '" ++ qname ++ ascii "' or exchange '" ++ ename ++
        ascii "' in vhost '" ++ p.vhost ++ ascii "'")
    else if noWait then return p
    else sendMethod cfg p ch classQueue queueBindOk []

/-- `Queue.Bind`: write on the exchange and read on the queue. -/
def handleQueueBind (r : Bytes) : Proc Proto :=
  match readQueueBind r with
  | none => protoFatal cfg p
  | some (q, e, k, noWait) =>
    let qname := copyStr 256 q
    let ename := copyStr 256 e
    if !nameOk qname || !nameOk ename then
      sendChannelClose cfg p ch 406 (ascii "PRECONDITION_FAILED - illegal queue/exchange name")
        classQueue queueBind
    else
      withPerm cfg p ch .write ename classQueue queueBind <|
        withPerm cfg p ch .read qname classQueue queueBind <|
          queueBindNamed cfg p ch qname ename (copyStr 256 k) (noWait.testBit 0)

/-- `Queue.Delete` of a legal name with permission: what is known of the queue is read first,
and it is deleted by name. -/
def queueDeleteNamed (qname : Bytes) (ifUnused ifEmpty noWait : Bool) : Proc Proto := do
  let close (p : Proto) (code : Nat) (text : Bytes) : Proc Proto :=
    sendChannelClose cfg p ch code text classQueue queueDelete
  match ← ask (.getQueue p.vhost qname) with
  | none => close p 404 (ascii "NOT_FOUND - no such queue")
  | some r =>
    let owner ← ask (.exclusiveOwner r)
    let depth ← ask (.depth r)
    let consumers ← ask (.consumerCount r)
    if owner ≠ 0 ∧ owner ≠ p.conn then
      close p 405 (ascii "RESOURCE_LOCKED - queue is exclusive to another connection")
    else if ifUnused ∧ 0 < consumers then
      close p 406 (ascii "PRECONDITION_FAILED - queue in use (has consumers)")
    else if ifEmpty ∧ 0 < depth then
      close p 406 (ascii "PRECONDITION_FAILED - queue not empty")
    else if cfg.cluster && isDurable r.flags then
      let seq ← act (.propose (.deleteQueue p.vhost qname))
      if noWait then return p
      else if seq = 0 then close p 541 (ascii "INTERNAL_ERROR - failed to replicate Queue.Delete")
      else awaitClusterCommit p ch seq classQueue queueDelete .queueDeleteOk [] depth
    else
      let gone ← act (.deleteQueue p.vhost qname ifUnused ifEmpty true)
      let p := { p with exclQueues := p.exclQueues.swapErase qname }
      if noWait then return p
      else sendMethod cfg p ch classQueue queueDeleteOk (beBytes 4 (gone.getD depth))

def handleQueueDelete (r : Bytes) : Proc Proto :=
  match readQueueDelete r with
  | none => protoFatal cfg p
  | some (q, bits) =>
    let qname := copyStr 256 q
    if !nameOk qname then
      sendChannelClose cfg p ch 406 (ascii "PRECONDITION_FAILED - illegal queue name")
        classQueue queueDelete
    else
      let p := p.advance .active
      withPerm cfg p ch .configure qname classQueue queueDelete <|
        queueDeleteNamed cfg p ch qname (bits.testBit 0) (bits.testBit 1) (bits.testBit 2)

def handleQueue (method : Nat) (r : Bytes) : Proc Proto :=
  withChannel cfg p ch <|
    if method = queueDeclare then handleQueueDeclare cfg p ch r
    else if method = queueBind then handleQueueBind cfg p ch r
    else if method = queueDelete then handleQueueDelete cfg p ch r
    else protoFatal cfg p

/-! ## Confirm class -/

def handleConfirm (method : Nat) (r : Bytes) : Proc Proto :=
  withChannel cfg p ch <|
    if method ≠ confirmSelect then protoFatal cfg p
    else match readUint 1 r with
      | none => protoFatal cfg p
      | some (noWait, _) =>
        let p := p.updChannel ch fun c => { c with confirmMode := true }
        if noWait.testBit 0 then return p
        else sendMethod cfg p ch classConfirm confirmSelectOk []

/-! ## Basic class -/

def handleQos (r : Bytes) : Proc Proto := do
  match readQos r with
  | none => protoFatal cfg p
  | some prefetch =>
    dispatcherSetPrefetch p.conn ch prefetch
    sendMethod cfg (p.updChannel ch fun c => { c with prefetch }) ch classBasic basicQosOk []

/-- `Basic.Publish`: the content frames follow. -/
def handlePublish (r : Bytes) : Proc Proto :=
  match readPublishArgs r with
  | none => protoFatal cfg p
  | some (e, k, bits) =>
    let p := { p.publishReset with
      pubActive := true
      pubMandatory := bits.testBit 0
      pubChannel := ch
      pubExchange := copyStr 256 e
      pubRoutingKey := copyStr 256 k }
    if !nameOk p.pubExchange then protoFatal cfg p else return p

/-- `Basic.Consume` of a legal name with permission. -/
def consumeNamed (qname ctag : Bytes) (noAck noWait : Bool) : Proc Proto := do
  let added ← dispatcherAddConsumer p.conn ch ctag p.vhost qname noAck
    ((p.channelFind ch).elim 0 fun c => c.prefetch)
  if !added then protoFatal cfg p
  else if noWait then return p
  else sendMethod cfg p ch classBasic basicConsumeOk (putShortstr ctag)

/-- `Basic.Consume` with its consumer tag. -/
def consumeTagged (qname ctag : Bytes) (bits : Nat) : Proc Proto :=
  if !nameOk qname then
    sendChannelClose cfg p ch 406 (ascii "PRECONDITION_FAILED - illegal queue name")
      classBasic basicConsume
  else
    let p := p.advance .active
    withPerm cfg p ch .read qname classBasic basicConsume <|
      consumeNamed cfg p ch qname ctag (bits.testBit 1) (bits.testBit 3)

def handleConsume (r : Bytes) : Proc Proto := do
  match readConsume r with
  | none => protoFatal cfg p
  | some (q, t, bits) =>
    let ctag := copyStr 128 t
    if ctag = [] then
      let seq ← act (.nextSeq p.conn)
      consumeTagged cfg p ch (copyStr 256 q)
        (ascii "ctag-" ++ decimal p.conn ++ ascii "-" ++ decimal seq) bits
    else consumeTagged cfg p ch (copyStr 256 q) ctag bits

def handleCancel (r : Bytes) : Proc Proto := do
  match readCancel r with
  | none => protoFatal cfg p
  | some (t, noWait) =>
    let ctag := copyStr 128 t
    dispatcherCancel cfg p.conn ch ctag
    if noWait.testBit 0 then return p
    else sendMethod cfg p ch classBasic basicCancelOk (putShortstr ctag)

def getOkArgs (tag depth : Nat) (m : Msg) : Bytes :=
  beBytes 8 tag ++ beBytes 1 0 ++ putShortstr m.exchange ++ putShortstr m.routingKey ++
    beBytes 4 depth

/-- `Basic.Get` with a message. The result of `protocol_send_content` is not looked at; without
no-ack the message is kept until it is settled or the channel goes. -/
def getMessage (r : QRef) (noAck : Bool) (m : Msg) : Proc Proto := do
  let tag ← act (.nextSeq p.conn)
  let depth ← ask (.depth r)
  let p ← sendMethod cfg p ch classBasic basicGetOk (getOkArgs tag depth m)
  let frameMax ← ask (.frameMax p.conn)
  sendContent p.conn ch frameMax m
  if noAck then
    dispatcherNotePull cfg r m.clusterId
    act .unrefHand
    return p
  else
    act (.keepGet p.conn ch tag r)
    return p

/-- `Basic.Get` of a legal name with permission. -/
def getNamed (qname : Bytes) (noAck : Bool) : Proc Proto := do
  let empty (p : Proto) : Proc Proto :=
    sendMethod cfg p ch classBasic basicGetEmpty (putShortstr [])
  match ← ask (.getQueue p.vhost qname) with
  | none => empty p
  | some r =>
    match ← act (.dequeue r) with
    | none => empty p
    | some m => getMessage cfg p ch r noAck m

def handleGet (r : Bytes) : Proc Proto :=
  match readGet r with
  | none => protoFatal cfg p
  | some (q, noAck) =>
    let qname := copyStr 256 q
    if !nameOk qname then
      sendChannelClose cfg p ch 406 (ascii "PRECONDITION_FAILED - illegal queue name")
        classBasic basicGet
    else
      withPerm cfg p ch .read qname classBasic basicGet <|
        getNamed cfg p ch qname (noAck.testBit 0)

/-- `chan_get_unacked_settle`, at index `i` of the array: how many were settled. -/
def settleGets (route : Bytes → Msg → Proc Int) (how : Settling) (c ch : Nat) :
    Nat → Nat → Nat → Proc Nat
  | 0, _, settled => return settled
  | n + 1, i, settled => do
    let gets ← ask (.gets c ch)
    match gets[i]? with
    | none => return settled
    | some g =>
      if settles how.tag how.multiple g.tag then
        if how.requeue then act (.requeueGet c ch i)
        else
          if how.rejected then deadLetter route g.queue g.msg
          act (.consumeOnAck g.queue g.msg.clusterId)
          act (.dropGet c ch i (if how.rejected then .rejected else .acked))
        if how.multiple then settleGets route how c ch n i (settled + 1)
        else return settled + 1
      else settleGets route how c ch n (i + 1) settled

/-- The end of `Basic.Ack`, `Basic.Reject` and `Basic.Nack`: the pulls of the channel first, and
then, for several tags or one that was no pull, the deliveries of its consumers. -/
def settleChannel (fuel : Nat) (p : Proto) (ch : Nat) (how : Settling) : Proc Proto := do
  let gets ← ask (.gets p.conn ch)
  let got ← settleGets (route fuel) how p.conn ch gets.length 0 0
  if how.multiple || got = 0 then dispatcherSettle (route fuel) p.conn ch how
  return p

def handleSettle (fuel : Nat) (p : Proto) (ch method : Nat) (r : Bytes) : Proc Proto :=
  match readSettle r with
  | none => protoFatal cfg p
  | some (tag, bits) =>
    settleChannel fuel p ch <|
      if method = basicAck then
        { tag, multiple := bits.testBit 0, requeue := false, rejected := false }
      else if method = basicReject then
        { tag, multiple := false, requeue := bits.testBit 0, rejected := !bits.testBit 0 }
      else
        { tag, multiple := bits.testBit 0, requeue := bits.testBit 1, rejected := !bits.testBit 1 }

def handleBasic (fuel : Nat) (p : Proto) (ch method : Nat) (r : Bytes) : Proc Proto :=
  withChannel cfg p ch <|
    if method = basicQos then handleQos cfg p ch r
    else if method = basicPublish then handlePublish cfg p ch r
    else if method = basicConsume then handleConsume cfg p ch r
    else if method = basicCancel then handleCancel cfg p ch r
    else if method = basicGet then handleGet cfg p ch r
    else if method = basicAck ∨ method = basicReject ∨ method = basicNack then
      handleSettle cfg fuel p ch method r
    else protoFatal cfg p

/-! ## Content -/

/-- What `finalize_publish` publishes. -/
def Proto.publish (body : Bytes) : Publish where
  vhost := p.vhost
  exchange := p.pubExchange
  routingKey := p.pubRoutingKey
  props := p.pubProps
  body := body

/-- The replicated part of `finalize_publish`: true when the cluster took the message. -/
def publishReplicated (body : Bytes) : Proc (Bool × Proto) := do
  let seq ← act (.propose (.publish (p.publish body)))
  if seq = 0 then return (false, p)
  else
    let confirm := (p.channelFind p.pubChannel).filter fun c => c.confirmMode
    let p ← match confirm with
      | none => pure p
      | some c =>
        awaitPublishConfirm (p.updChannel p.pubChannel fun c =>
          { c with confirmSeq := c.confirmSeq + 1 }) p.pubChannel seq (c.confirmSeq + 1)
    let congested ← ask .shouldThrottle
    if congested then act (.throttleRead p.conn)
    return (true, p)

def sendBasicReturn (m : Msg) : Proc Proto := do
  let p ← sendMethod cfg p p.pubChannel classBasic basicReturn
    (beBytes 2 312 ++ putShortstr (ascii "NO_ROUTE") ++ putShortstr m.exchange ++
      putShortstr m.routingKey)
  let frameMax ← ask (.frameMax p.conn)
  sendContent p.conn p.pubChannel frameMax m
  return p

/-- The local part of `finalize_publish`: route, confirm, and return what went nowhere. -/
def publishLocal (fuel : Nat) (p : Proto) (body : Bytes) : Proc Proto := do
  let m := (p.publish body).message 0
  let routed ← route fuel p.vhost m
  let p ← match (p.channelFind p.pubChannel).filter fun c => c.confirmMode with
    | none => pure p
    | some c =>
      sendPublishConfirm cfg (p.updChannel p.pubChannel fun c =>
        { c with confirmSeq := c.confirmSeq + 1 }) p.pubChannel (c.confirmSeq + 1)
        (routed = routeResourceError)
  if p.pubMandatory && routed = 0 then sendBasicReturn cfg p m else return p

/-- The first `Connection.Blocked` of an alarm. -/
def sendBlockedOnce : Proc Proto :=
  if p.connBlocked then return p
  else
    sendMethod cfg { p with connBlocked := true } 0 classConnection connectionBlocked
      (putShortstr (ascii "low on memory"))

/-- The end of `finalize_publish`: while memory is low, a connection that only publishes is
blocked. -/
def publishDone : Proc Proto := do
  let p := p.advance .active
  let alarm ← ask .memoryAlarm
  if alarm then
    let consumes ← dispatcherConnHasConsumers p.conn
    if consumes then return p.publishReset
    else
      let p ← sendBlockedOnce cfg p
      act (.throttleRead p.conn)
      return p.publishReset
  else return p.publishReset

def finalizePublish (fuel : Nat) (p : Proto) (body : Bytes) : Proc Proto := do
  let ok ← permOk cfg p .write p.pubExchange
  if !ok then
    let p ← sendChannelClose cfg p p.pubChannel 403
      (ascii "ACCESS_REFUSED - write access to exchange '" ++ p.pubExchange ++
        ascii "' in vhost '" ++ p.vhost ++ ascii "' refused for user '" ++ p.user ++ ascii "'")
      classBasic basicPublish
    return p.publishReset
  else if cfg.cluster && propsIsPersistent p.pubProps then
    let (replicated, p) ← publishReplicated p body
    if replicated then publishDone cfg p
    else
      let p ← sendChannelClose cfg p p.pubChannel 506
        (ascii "RESOURCE_ERROR - cannot replicate publish; retry") classBasic basicPublish
      return p.publishReset
  else
    let p ← publishLocal cfg fuel p body
    publishDone cfg p

def handleContentHeader (fuel : Nat) (p : Proto) (f : Frame) : Proc Proto :=
  if f.channel ≠ p.pubChannel then protoFatal cfg p
  else match readContentHeader f.payload with
    | none => protoFatal cfg p
    | some (size, props) =>
      if bodyLimit cfg.maxMessageSize < size then protoFatal cfg p
      else
        let p := { p with pubProps := props, pubBodySize := size, pubHaveHeader := true }
        if size = 0 then finalizePublish cfg fuel p [] else return p

/-- `handle_content_body`: a body in one frame is published from the read buffer, a longer one
is accumulated. -/
def handleContentBody (fuel : Nat) (p : Proto) (f : Frame) : Proc Proto :=
  if f.channel ≠ p.pubChannel then protoFatal cfg p
  else if p.pubBodySize < p.pubBodyReceived + f.payload.length then protoFatal cfg p
  else if p.pubBody.isNone && f.payload.length = p.pubBodySize then
    finalizePublish cfg fuel p f.payload
  else
    let body := p.pubBody.getD [] ++ f.payload
    let p := { p with pubBody := some body }
    if body.length = p.pubBodySize then finalizePublish cfg fuel p body else return p

/-! ## Dispatch -/

def handleMethod (fuel : Nat) (p : Proto) (ch : Nat) (payload : Bytes) : Proc Proto :=
  match readUint 2 payload with
  | none => protoFatal cfg p
  | some (classId, r) =>
    match readUint 2 r with
    | none => protoFatal cfg p
    | some (methodId, r) =>
      if classId = classConnection then handleConnection cfg p ch methodId r
      else if classId = classChannel then handleChannel cfg p ch methodId
      else if classId = classExchange then handleExchange cfg p ch methodId r
      else if classId = classQueue then handleQueue cfg p ch methodId r
      else if classId = classBasic then handleBasic cfg fuel p ch methodId r
      else if classId = classConfirm then handleConfirm cfg p ch methodId r
      else protoFatal cfg p

def dispatchFrame (fuel : Nat) (p : Proto) (f : Frame) : Proc Proto :=
  if p.pubActive then
    -- while a publish is assembled only its content frames are valid
    if !p.pubHaveHeader then
      if f.type ≠ frameHeader then protoFatal cfg p else handleContentHeader cfg fuel p f
    else if f.type ≠ frameBody then protoFatal cfg p
    else handleContentBody cfg fuel p f
  else if f.type = frameMethod then handleMethod cfg fuel p f.channel f.payload
  else if f.type = frameHeartbeat then return p
  else protoFatal cfg p

/-- The frame loop of `protocol_on_data`. A frame takes at least 8 bytes, so as many rounds as
there are bytes are enough. -/
def frameLoop (cfg : Cfg) (fuel : Nat) : Nat → Stream → Proc Stream
  | 0, st => return st
  | n + 1, st => do
    if st.proto.state = .closing then return st
    else match frameParse st.inbuf with
      | .incomplete => return st
      | .bad => return { st with proto := ← protoFatal cfg st.proto }
      | .frame f total =>
        if 0 < st.proto.frameMax ∧ st.proto.frameMax < f.payload.length then
          return { st with proto := ← protoFatal cfg st.proto }
        else
          let p ← dispatchFrame cfg fuel st.proto f
          frameLoop cfg fuel n { st with proto := p, inbuf := st.inbuf.drop total }

/-- The first step of `protocol_on_data`: the 8-byte greeting; false is an early return. -/
def greeting (st : Stream) : Proc (Bool × Stream) := do
  if st.headerReceived then return (true, st)
  else if st.inbuf.length < 8 then return (false, st)
  else if st.inbuf.take 8 ≠ protocolHeader then
    let _ ← act (.send st.proto.conn protocolHeader)
    let p ← protoFatal cfg st.proto
    return (false, { st with proto := p })
  else
    let p ← sendConnectionStart cfg (st.proto.advance .handshake)
    return (true, { proto := p, headerReceived := true, inbuf := st.inbuf.drop 8 })

/-- `protocol_on_data`. -/
def onData (fuel : Nat) (st : Stream) (data : Bytes) : Proc Stream := do
  if st.proto.state = .closing then return st
  else
    let (go, st) ← greeting cfg { st with inbuf := st.inbuf ++ data }
    if go then frameLoop cfg fuel (st.inbuf.length + 1) st else return st

/-! ## The input buffer

`onData` has the bytes that are left to read. The code keeps them in a buffer whose consumed front
is only given up when the next read comes in; `Wired` is a connection with that buffer. -/

/-- `inbuf` with `inbuf_len` and `inbuf_pos`; `inbuf_cap` is the length of `mem`. The bytes before
`pos` have been consumed, those from `len` on mean nothing. -/
structure Inbuf where
  mem : Bytes := []
  len : Nat := 0
  pos : Nat := 0

def Inbuf.unread (b : Inbuf) : Bytes := (b.mem.take b.len).drop b.pos

/-- The start of `inbuf_append`: one `memmove` of what is left to the front. -/
def Inbuf.reclaim (b : Inbuf) : Inbuf :=
  if 0 < b.pos then
    let rem := b.len - b.pos
    { mem := (b.mem.drop b.pos).take rem ++ b.mem.drop rem, len := rem }
  else b

/-- The loop that doubles the capacity; `need` rounds are enough. -/
def Inbuf.newCap (need : Nat) : Nat → Nat → Nat
  | 0, cap => cap
  | n + 1, cap =>
    if cap < need then
      if (2 ^ 64 - 1) / 2 < cap then need else newCap need n (cap * 2)
    else cap

/-- `realloc`; what the new bytes hold does not matter. -/
def Inbuf.grow (b : Inbuf) (need : Nat) : Inbuf :=
  if b.mem.length < need then
    let cap := Inbuf.newCap need need (if b.mem.length = 0 then 256 else b.mem.length)
    { b with mem := b.mem ++ List.replicate (cap - b.mem.length) 0 }
  else b

/-- `inbuf_append`; `none` is the rejected overflow of `size_t`. -/
def Inbuf.append (b : Inbuf) (data : Bytes) : Option Inbuf :=
  let b := b.reclaim
  let need := (b.len + data.length) % 2 ^ 64
  if need < b.len then none
  else
    let b := b.grow need
    some { b with
      mem := b.mem.take b.len ++ data ++ b.mem.drop (b.len + data.length)
      len := b.len + data.length }

/-- The cursor moves on; nothing is shifted. -/
def Inbuf.skip (b : Inbuf) (n : Nat) : Inbuf := { b with pos := b.pos + n }

structure Wired where
  proto : Proto
  headerReceived : Bool := false
  inbuf : Inbuf := {}

/-- The second step of `protocol_on_data`. -/
def Wired.frameLoop (cfg : Cfg) (fuel : Nat) : Nat → Wired → Proc Wired
  | 0, s => return s
  | n + 1, s => do
    if s.proto.state = .closing then return s
    else match frameParse s.inbuf.unread with
      | .incomplete => return s
      | .bad => return { s with proto := ← protoFatal cfg s.proto }
      | .frame f total =>
        if 0 < s.proto.frameMax ∧ s.proto.frameMax < f.payload.length then
          return { s with proto := ← protoFatal cfg s.proto }
        else
          let p ← dispatchFrame cfg fuel s.proto f
          Wired.frameLoop cfg fuel n { s with proto := p, inbuf := s.inbuf.skip total }

def Wired.greeting (s : Wired) : Proc (Bool × Wired) := do
  if s.headerReceived then return (true, s)
  else if s.inbuf.len - s.inbuf.pos < 8 then return (false, s)
  else if s.inbuf.unread.take 8 ≠ protocolHeader then
    let _ ← act (.send s.proto.conn protocolHeader)
    let p ← protoFatal cfg s.proto
    return (false, { s with proto := p })
  else
    let p ← sendConnectionStart cfg (s.proto.advance .handshake)
    return (true, { proto := p, headerReceived := true, inbuf := s.inbuf.skip 8 })

/-- `protocol_on_data` on the buffer. -/
def Wired.onData (fuel : Nat) (s : Wired) (data : Bytes) : Proc Wired := do
  if s.proto.state = .closing then return s
  else match s.inbuf.append data with
    | none => return { s with proto := ← protoFatal cfg s.proto }
    | some inbuf =>
      let (go, s) ← Wired.greeting cfg { s with inbuf }
      if go then Wired.frameLoop cfg fuel (s.inbuf.unread.length + 1) s else return s

/-! ## The other callbacks -/

/-- `protocol_conn_unblock`. -/
def connUnblock : Proc Proto :=
  if p.connBlocked then
    sendMethod cfg { p with connBlocked := false } 0 classConnection connectionUnblocked []
  else return p

def protocolConnFree : Proc Proto := do
  p.exclQueues.forM fun name => do
    let _ ← act (.deleteQueue p.vhost name false false false)
    return ()
  p.channels.forM fun c => chanReleaseGetUnacked p.conn c.id
  return { p with
    exclQueues := [], pendingOps := [], channels := [], pendingAuth := none, state := .closing }

/-- What happens to one connection. -/
inductive ConnEvent
  /-- `on_read` with data. -/
  | data (bytes : Bytes)
  /-- The end of a password verification. -/
  | authDone
  /-- The poll timer of the `i`-th pending op. -/
  | opTimer (i : Nat)
  /-- The throttle timer found the alarms off. -/
  | unblock
  /-- The handles are closed. -/
  | closed

def connCallback (fuel : Nat) (st : Stream) : ConnEvent → Proc Stream
  | .data bytes => onData cfg fuel st bytes
  | .authDone => do return { st with proto := ← authWorkAfterCb cfg st.proto }
  | .opTimer i => do return { st with proto := ← pendingOpTimerCb cfg st.proto i }
  | .unblock => do return { st with proto := ← connUnblock cfg st.proto }
  | .closed => do return { st with proto := ← protocolConnFree st.proto }

end BeaverMQ.Amqp
