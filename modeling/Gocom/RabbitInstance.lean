import Gocom.GoMaps
import Gocom.MessageEnvelopes

/-!
# A RabbitMQ instance

The publishing side of an instance: queue declaration, the lists of what waits for a
connection, and publishing itself. Published messages are pointers into a heap, since
publishing may set the correlation identifier and the reply address of a message.

The broker is a parameter. It has a state of its own and answers every request as it likes,
except that a declared queue has a name. The calls of `Channel.Publish` are recorded in order.
-/

namespace Gocom

structure Delivery where
  headers : Headers := []
  contentType : String := ""
  correlationId : String := ""
  replyTo : String := ""
  messageId : String := ""
  userId : String := ""
  appId : String := ""
  consumerTag : String := ""
  exchange : String := ""
  routingKey : String := ""
  timestamp : ℤ := 0
  body : Bytes := []
  deriving DecidableEq

structure AMQPConfig where
  connConfigName : String := ""
  queue : String := ""
  queueDurable : Bool := false
  bindingExchange : Bool := false
  exchangeName : String := ""
  exchangeType : String := ""
  bindingKey : String := ""
  queueAutoDelete : Bool := false

def AMQPConfig.isBroadcastExange (cfg : AMQPConfig) : Bool := "fanout" == cfg.exchangeType

structure QueueDescribes where
  name : String := ""
  messages : ℕ := 0
  consumers : ℕ := 0
  durable : Bool := false
  autoDelete : Bool := false
  exclusive : Bool := false
  noWait : Bool := false
  isBroadcast : Bool := false
  lastName : String := ""
  initialName : String := ""

namespace QueueDescribes

def clear (d : QueueDescribes) : QueueDescribes :=
  { lastName := d.name, initialName := d.initialName }

def copy (d s : QueueDescribes) : QueueDescribes :=
  { s with lastName := "", initialName := d.initialName }

def notInitialized (d : QueueDescribes) : Bool := d.name == ""

end QueueDescribes

/-- A consumer; its callback is known by address. -/
structure RabbitConsumerProxy where
  queue : String
  callback : ℕ := 0
  consumerTag : String := ""
  autoAck : Bool := true
  exclusive : Bool := false
  noLocal : Bool := false
  noWait : Bool := false

structure DeclaredQueue where
  name : String
  messages : ℕ := 0
  consumers : ℕ := 0
  name_ne : name ≠ ""

/-- The variable fields of `amqp.Publishing`. -/
structure Publishing where
  headers : Headers := []
  contentType : String := ""
  body : Bytes := []
  correlationId : String := ""
  replyTo : String := ""
  messageId : String := ""
  appId : String := ""
  userId : String := ""
  deriving DecidableEq

/-- How an attempt to connect ends: the address cannot be formed, the connection has no usable
channel, or both are there. Dialling is repeated until it succeeds. -/
inductive Dial where
  | noAddress
  | noChannel
  | ready

/-- The broker and the libraries between it and the instance. -/
structure Broker (σ : Type*) where
  connect : σ → σ × Dial
  queueDeclare : σ → QueueDescribes → σ × Except String DeclaredQueue
  queueBind : σ → String → String → String → σ × Option String
  queueDelete : σ → String → Bool → σ
  publish : σ → String → String → Publishing → σ × Option String
  consume : σ → String → RabbitConsumerProxy → σ × Option String
  /-- The queue of a newly made RPC instance, if it could be made. -/
  rpcQueue : σ → σ × Option String
  genLoweruuid : σ → σ × String
  ack : σ → Delivery → σ
  /-- The order in which the consumers are visited. -/
  rangeConsumers : σ → List RabbitConsumerProxy → List RabbitConsumerProxy
  range_perm : ∀ env cms, (rangeConsumers env cms).Perm cms

/-- A call of `Channel.Publish` for a message. -/
structure Handed where
  message : ℕ
  exchange : String
  routingKey : String
  publishing : Publishing

/-- What the RPC instance of a connection keeps: its queue and the messages that wait for a
reply, by correlation identifier. -/
structure RpcInstance where
  queueName : String
  rpcCallbacks : GoMap String ℕ

/-- `conn` and `channel` say whether the pointers are set, `returned` whether `Run` has ended. -/
structure RabbitMQ (σ : Type*) where
  env : σ
  config : AMQPConfig
  driver : String := "rabbitmq"
  jinDie : Bool := false
  trackerQueue : String := ""
  conn : Bool := false
  channel : Bool := false
  connecting : Bool := false
  queueInfo : QueueDescribes := {}
  consumers : List (String × RabbitConsumerProxy) := []
  pendingConsumers : List RabbitConsumerProxy := []
  pendingPublishes : List ℕ := []
  pendingReplies : GoMap String Delivery := .empty
  rpc : Option RpcInstance := none
  messages : ℕ → MQPublishMessage
  handed : List Handed := []
  returned : Bool := false
  statuses : List (ℕ × MQEvent) := []

namespace RpcInstance

/-- Make a message answerable: give it an identifier if it has none and the reply address of
this instance, and wait for its reply unless a message of that identifier already does. -/
def ensureRPCMessage (rpc : RpcInstance) (messages : ℕ → MQPublishMessage) (uuid : String) (m : ℕ) :
    RpcInstance × (ℕ → MQPublishMessage) :=
  let pm := messages m
  let correlationID := if "" = pm.correlationID then uuid else pm.correlationID
  let messages := fun k =>
    if k = m then { pm with correlationID, replyTo := rpc.queueName } else messages k
  let waits := match rpc.rpcCallbacks correlationID with
    | none => false
    | some originPm => (messages originPm).response.isSome
  (if waits then rpc else { rpc with rpcCallbacks := rpc.rpcCallbacks.store correlationID m }, messages)

end RpcInstance

namespace RabbitMQ

variable {σ : Type*} (b : Broker σ)

/-! ## Queues -/

/-- What is asked of the broker for the queue of a configuration. -/
def describeQueue (cfg : AMQPConfig) (jinDie : Bool) : QueueDescribes :=
  let queueInfo : QueueDescribes :=
    { name := cfg.queue, durable := cfg.queueDurable, autoDelete := cfg.queueAutoDelete,
      initialName := cfg.queue }
  if cfg.isBroadcastExange then
    { queueInfo with autoDelete := true, durable := jinDie, name := "", isBroadcast := true }
  else if "" = queueInfo.name then { queueInfo with autoDelete := true, durable := false }
  else queueInfo

def createQueue (env : σ) (cfg : AMQPConfig) (jinDie : Bool) : σ × Except String QueueDescribes :=
  let queueInfo := describeQueue cfg jinDie
  match b.queueDeclare env queueInfo with
  | (env, .error err) => (env, .error ("Queue declare: " ++ err))
  | (env, .ok queue) =>
    let queueInfo := { queueInfo with
      name := queue.name, messages := queue.messages, consumers := queue.consumers }
    if cfg.bindingExchange then
      match b.queueBind env queueInfo.name cfg.bindingKey cfg.exchangeName with
      | (env, some err) => (env, .error ("Queue bind: " ++ err))
      | (env, none) => (env, .ok queueInfo)
    else (env, .ok queueInfo)

def close (r : RabbitMQ σ) : RabbitMQ σ :=
  { r with connecting := false, channel := false, conn := false }

/-- Delete the queue of the previous connection, unless its name is forgotten or in use. -/
def removeUnusedQueue (r : RabbitMQ σ) : RabbitMQ σ :=
  if "" ≠ r.queueInfo.lastName ∧ r.queueInfo.name ≠ r.queueInfo.lastName ∧ r.queueInfo.autoDelete then
    { r with
      env := b.queueDelete r.env r.queueInfo.lastName (!r.queueInfo.isBroadcast)
      queueInfo := { r.queueInfo with lastName := "" } }
  else r

/-- The instance once it knows its declared queue. -/
def withQueue (r : RabbitMQ σ) (env : σ) (queueInfo : QueueDescribes) : RabbitMQ σ :=
  { r with env, queueInfo := { r.queueInfo with initialName := r.config.queue }.copy queueInfo }

/-- Declare the queue of the instance, then run `flush` for what waited for it. -/
def ensureQueueWith (flush : RabbitMQ σ → RabbitMQ σ) (r : RabbitMQ σ) : RabbitMQ σ × Option String :=
  if r.conn = false then
    (r, some ("RabbitMQ connection were not connected when ensuring queue:" ++ r.config.queue))
  else
    match createQueue b r.env r.config r.jinDie with
    | (env, .error err) => ({ r with env }.close, some err)
    | (env, .ok queueInfo) => ((flush (r.withQueue env queueInfo)).removeUnusedQueue b, none)

/-! ## Publishing -/

def isReplyNeededMessageAnswered (r : RabbitMQ σ) (correlationID : String) : Bool :=
  "" = correlationID ∨ r.pendingReplies correlationID = none

def answerReplyNeededMessage (r : RabbitMQ σ) (correlationID : String) : RabbitMQ σ :=
  if "" ≠ correlationID then { r with pendingReplies := r.pendingReplies.delete correlationID } else r

/-- Tell the tracker queue about a message; the message itself is not sent. -/
def publishTrackerMQMessage (r : RabbitMQ σ) (pm : MQPublishMessage) (typ : String) : RabbitMQ σ :=
  if "" = r.trackerQueue ∨ r.channel = false then r
  else
    { r with env := (b.publish r.env "" r.trackerQueue
        { headers := (pm.headers.set "ReplyTo" pm.replyTo).set "Type" typ,
          contentType := pm.contentType, correlationId := pm.correlationID,
          messageId := pm.messageID, appId := pm.appID, userId := pm.userID }).1 }

def getRPCInstance (r : RabbitMQ σ) : RabbitMQ σ × Option RpcInstance :=
  match r.rpc with
  | some rpc => (r, some rpc)
  | none =>
    match b.rpcQueue r.env with
    | (env, none) => ({ r with env }, none)
    | (env, some queueName) =>
      let rpc : RpcInstance := ⟨queueName, .empty⟩
      ({ r with env, rpc := some rpc }, some rpc)

/-- Make a message with a response channel answerable. -/
def ensureResponse (r : RabbitMQ σ) (m : ℕ) : RabbitMQ σ :=
  if (r.messages m).response = none then r
  else
    match getRPCInstance b r with
    | (r, none) => r
    | (r, some rpc) =>
      let (env, uuid) := b.genLoweruuid r.env
      let (rpc, messages) := rpc.ensureRPCMessage r.messages uuid m
      { r with env, rpc := some rpc, messages }

/-- Where a message goes. The names are those it had before it was made answerable. -/
def destination (r : RabbitMQ σ) (pm : MQPublishMessage) (exchangeName routingKey : String) :
    String × String :=
  let exchangeName :=
    if pm.skipExchange ∨ ("" ≠ pm.correlationID ∧ isReplyNeededMessageAnswered r pm.correlationID = false)
    then "" else if "" = exchangeName then r.config.exchangeName else exchangeName
  if "" = routingKey then ("", r.queueInfo.name) else (exchangeName, routingKey)

def publishingOf (pm : MQPublishMessage) : Publishing :=
  { headers := pm.headers, contentType := pm.contentType, body := pm.body,
    correlationId := pm.correlationID, replyTo := pm.replyTo, messageId := pm.messageID,
    appId := pm.appID, userId := pm.userID }

def publishStatus (pm : MQPublishMessage) (err : Option String) : MQEvent :=
  match err with
  | none => { code := .ok, label := pm.eventLabel, message := "Publish success" }
  | some err => { code := .failed, label := pm.eventLabel, message := err }

/-- The reply it may have been, the tracker and the publisher learn that a message was handed
over. -/
def afterPublish (r : RabbitMQ σ) (m : ℕ) (pm : MQPublishMessage) (err : Option String) :
    RabbitMQ σ :=
  let r := if "" ≠ pm.correlationID then
    publishTrackerMQMessage b (r.answerReplyNeededMessage pm.correlationID) pm "2" else r
  if pm.publishStatus.isSome then
    { r with statuses := r.statuses ++ [(m, publishStatus pm err)] } else r

/-- Hand a message to the channel. -/
def handOver (r : RabbitMQ σ) (m : ℕ) : RabbitMQ σ × Option String :=
  let exchangeName := (r.messages m).exchange
  let routingKey := (r.messages m).routingKey
  let r := ensureResponse b r m
  let pm := r.messages m
  let (exchangeName, routingKey) := destination r pm exchangeName routingKey
  let (env, err) := b.publish r.env exchangeName routingKey (publishingOf pm)
  let r := { r with env, handed := r.handed ++ [⟨m, exchangeName, routingKey, publishingOf pm⟩] }
  (afterPublish b r m pm err, err.map ("Exchange Publish: " ++ ·))

def publishWith (ensureQueue : RabbitMQ σ → RabbitMQ σ × Option String) (r : RabbitMQ σ) (m : ℕ) :
    RabbitMQ σ × Option String :=
  if r.channel = false then ({ r with pendingPublishes := r.pendingPublishes ++ [m] }, none)
  else if r.queueInfo.notInitialized ∧ r.config.isBroadcastExange = false then
    match ensureQueue r with
    | (r, some err) => (r, some err)
    | (r, none) => handOver b r m
  else handOver b r m

/-! ## Consuming -/

def storeConsumer (consumers : List (String × RabbitConsumerProxy)) (queueName : String)
    (cm : RabbitConsumerProxy) : List (String × RabbitConsumerProxy) :=
  consumers.filter (fun p => p.1 ≠ queueName) ++ [(queueName, cm)]

/-- The queue a consumer reads: the one of the instance, or one declared for it. -/
def consumedQueue (r : RabbitMQ σ) (cm : RabbitConsumerProxy) : σ × Except String String :=
  if cm.queue ≠ r.queueInfo.name ∧ cm.queue ≠ r.queueInfo.initialName then
    let cfg : AMQPConfig := { connConfigName := r.config.connConfigName, queue := cm.queue,
                              queueDurable := r.config.queueDurable }
    match createQueue b r.env cfg r.jinDie with
    | (env, .error err) => (env, .error err)
    | (env, .ok queueInfo) => (env, .ok queueInfo.name)
  else (r.env, .ok r.queueInfo.name)

def startConsumer (r : RabbitMQ σ) (cm : RabbitConsumerProxy) : RabbitMQ σ × Option String :=
  match consumedQueue b r cm with
  | (env, .error err) => ({ r with env }, some err)
  | (env, .ok queueName) =>
    let r := { r with consumers := storeConsumer r.consumers queueName cm }
    let (env, err) := b.consume env queueName cm
    ({ r with env }, err)

def consumeWith (ensureQueue : RabbitMQ σ → RabbitMQ σ × Option String) (r : RabbitMQ σ)
    (cm : RabbitConsumerProxy) : RabbitMQ σ × Option String :=
  if r.channel = false then ({ r with pendingConsumers := r.pendingConsumers ++ [cm] }, none)
  else if r.queueInfo.notInitialized then
    match ensureQueue r with
    | (r, some err) => (r, some err)
    | (r, none) => startConsumer b r cm
  else startConsumer b r cm

/-! ## What waited for the queue -/

def ensurePendingsWith (consume : RabbitMQ σ → RabbitConsumerProxy → RabbitMQ σ × Option String)
    (publish : RabbitMQ σ → ℕ → RabbitMQ σ × Option String) (r : RabbitMQ σ) : RabbitMQ σ :=
  let consumers := r.pendingConsumers
  let r := consumers.foldl (fun r cm => (consume r { cm with queue := r.queueInfo.name }).1)
    { r with pendingConsumers := [] }
  let publishes := r.pendingPublishes
  publishes.foldl (fun r m => (publish r m).1) { r with pendingPublishes := [] }

/-- The flush never asks for the queue again, so it is given an `ensureQueue` that does
nothing; `ensureQueue_eq` ties the knot. -/
def ensurePendings (r : RabbitMQ σ) : RabbitMQ σ :=
  ensurePendingsWith (consumeWith b fun r => (r, none)) (publishWith b fun r => (r, none)) r

def ensureQueue (r : RabbitMQ σ) : RabbitMQ σ × Option String :=
  ensureQueueWith b (ensurePendings b) r

def publish (r : RabbitMQ σ) (m : ℕ) : RabbitMQ σ × Option String :=
  publishWith b (ensureQueue b) r m

def consume (r : RabbitMQ σ) (cm : RabbitConsumerProxy) : RabbitMQ σ × Option String :=
  consumeWith b (ensureQueue b) r cm

/-! ## The loop -/

def newRabbitMQ (env : σ) (config : AMQPConfig) (driver : String) (jinDie : Bool)
    (trackerQueue : String) (messages : ℕ → MQPublishMessage) : RabbitMQ σ :=
  { env, config, driver, jinDie, trackerQueue, messages }

/-- Connect. A broadcast instance without consumers does not declare its queue. -/
def initConn (r : RabbitMQ σ) : RabbitMQ σ :=
  if r.driver ≠ "rabbitmq" then r
  else
    match b.connect r.env with
    | (env, .noAddress) => { r with env, connecting := false }
    | (env, .noChannel) => { r with env, connecting := false, conn := false, channel := false }
    | (env, .ready) =>
      let r := { r with env, connecting := false, conn := true, channel := true }
      if r.config.isBroadcastExange ∧ r.consumers.length ≤ 0 ∧ r.pendingConsumers.length ≤ 0 then r
      else (ensureQueue b r).1

/-- What the loop does before it waits for an event. -/
def reconnect (r : RabbitMQ σ) : RabbitMQ σ :=
  if r.connecting = false ∧ r.conn = false then
    let cms := b.rangeConsumers r.env (r.consumers.map Prod.snd)
    initConn b { r with pendingConsumers := r.pendingConsumers ++ cms, consumers := [] }
  else r

/-- What the loop waits for. A notice is a blocked connection or a returned message, which is
only logged; a tick has looked at the connection and at the consumers' queues. -/
inductive Event where
  | publish (m : ℕ)
  | consume (cm : RabbitConsumerProxy)
  | done
  | notice
  | channelCancel
  | connClosed
  | channelClosed
  | close
  | tick (isClosed shouldReconnect : Bool)

def clearQueue (r : RabbitMQ σ) : RabbitMQ σ := { r with queueInfo := r.queueInfo.clear }

/-- The errors of publishing and consuming are dropped here. -/
def handle (r : RabbitMQ σ) : Event → RabbitMQ σ
  | .publish m => (publish b r m).1
  | .consume cm =>
    (consume b r (if "" ≠ r.queueInfo.name then { cm with queue := r.queueInfo.name } else cm)).1
  | .done => if r.connecting = false then r.clearQueue.close else r
  | .notice => r
  | .channelCancel => r.clearQueue.close
  | .connClosed => { r.clearQueue with channel := false }.close
  | .channelClosed => { r.clearQueue with channel := false }.close
  | .close => { r.clearQueue.close with returned := true }
  | .tick isClosed shouldReconnect =>
    if r.conn = false then r
    else if isClosed then { r.clearQueue with conn := false, connecting := false }
    else if r.channel = false then r
    else if shouldReconnect then r.close else r

/-- One round of the loop. -/
def step (r : RabbitMQ σ) (e : Event) : Option (RabbitMQ σ) :=
  if r.returned then none else some (handle b (reconnect b r) e)

end RabbitMQ
end Gocom
