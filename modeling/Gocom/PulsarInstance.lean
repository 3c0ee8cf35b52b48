import Gocom.PulsarProperties
import Gocom.RabbitInstance
import Gocom.UrlPaths
import Gocom.Utf8Runes

/-!
# A Pulsar instance

An instance publishes and consumes through a client that may not be there: what comes in the
meantime waits in two lists, and is taken up when the client is connected. A method called on a
client that is not there panics, which is `none`.

The broker is a parameter. It has a state of its own and answers every request as it likes. What
is handed to a producer, what is refused one, and the callbacks that run on the consumers of the
present client are recorded in order. The channel `Ready`, which only the consumer of an RPC
instance has, is left out.
-/

namespace Gocom

structure PulsarConfig where
  topic : String := ""
  connConfigName : String := ""
  messageType : String := ""
  deriving DecidableEq

/-- The variable fields of `pulsar.ConsumerOptions`. -/
structure ConsumerOptions where
  name : String
  topic : String
  subscriptionName : String
  exclusive : Bool

/-- `pulsar.ProducerMessage`. -/
structure ProducerMessage where
  payload : Bytes
  key : String
  properties : Headers

/-- The broker and the libraries between it and the instance. -/
structure PulsarBroker (σ : Type*) where
  formatConnectionDSN : σ → σ × Option String
  createProducer : σ → String → σ × Option String
  subscribe : σ → ConsumerOptions → σ × Option String
  sendAsync : σ → String → ProducerMessage → σ
  /-- The host and the random part in the topic of a newly made RPC instance, if it could be made. -/
  rpcName : σ → σ × Option String
  genLoweruuid : σ → σ × String
  ack : σ → PulsarMQ.Message → σ
  /-- The order in which the consumers are visited. -/
  rangeConsumers : σ → List MQConsumerProxy → List MQConsumerProxy
  range_perm : ∀ env cms, (rangeConsumers env cms).Perm cms

/-- A call of `SendAsync` for a message. -/
structure SentMessage where
  message : ℕ
  topic : String
  content : ProducerMessage

theorem RpcInstance.ensureRPCMessage_queueName (rpc : RpcInstance) (messages : ℕ → MQPublishMessage)
    (uuid : String) (m : ℕ) : (rpc.ensureRPCMessage messages uuid m).1.queueName = rpc.queueName := by
  rw [ensureRPCMessage]
  dsimp only
  split_ifs <;> rfl

/-- An RPC instance, whose topic does not persist. -/
structure PulsarRpc extends RpcInstance where
  nonPersistent : "non-persistent://".toList <+: queueName.toList

def PulsarRpc.ensureRPCMessage (rpc : PulsarRpc) (messages : ℕ → MQPublishMessage) (uuid : String)
    (m : ℕ) : PulsarRpc × (ℕ → MQPublishMessage) :=
  (⟨(rpc.toRpcInstance.ensureRPCMessage messages uuid m).1, by
      rw [RpcInstance.ensureRPCMessage_queueName]
      exact rpc.nonPersistent⟩,
    (rpc.toRpcInstance.ensureRPCMessage messages uuid m).2)

/-- `client` says whether the pointer is set, `dialing` how many attempts to connect are under
way, `attached` which callbacks run on the consumers of the present client. -/
structure PulsarMQ (σ : Type*) where
  env : σ
  name : String := ""
  driver : String := "pulsar"
  config : PulsarConfig := {}
  namespaceName : String := ""
  topicName : String := ""
  isInstanceRPC : Bool := false
  trackerQueue : String := ""
  client : Bool := false
  connecting : Bool := false
  dialing : ℕ := 0
  producers : List String := []
  consumers : List (String × MQConsumerProxy) := []
  pendingConsumers : List MQConsumerProxy := []
  pendingPublishes : List ℕ := []
  pendingReplies : GoMap String MQConsumerMessage := .empty
  rpc : Option PulsarRpc := none
  messages : ℕ → MQPublishMessage
  sent : List SentMessage := []
  rejected : List ℕ := []
  attached : List (String × MQConsumerProxy) := []
  refused : List MQConsumerProxy := []
  statuses : List (ℕ × MQEvent) := []

/-- `utils.URLPathJoin` of texts. -/
def urlPathJoinText (path : String) (paths : List String) : String :=
  String.ofList (Utf8Texts.runes (UrlPaths.urlPathJoin (Utf8Texts.encode path.toList)
    (paths.map fun p => Utf8Texts.encode p.toList)))

namespace PulsarMQ

variable {σ : Type*} (b : PulsarBroker σ)

/-- `NewPulsarMQ`; `path` is that of the connection. -/
def newPulsarMQ (env : σ) (name driver path : String) (config : PulsarConfig) (trackerQueue : String)
    (messages : ℕ → MQPublishMessage) : PulsarMQ σ :=
  { env, name, driver, config, namespaceName := path, topicName := urlPathJoinText path [config.topic],
    trackerQueue, messages }

def prepareTopicName (r : PulsarMQ σ) (topicName : String) : String :=
  if "" = topicName then r.topicName
  else if r.namespaceName.toList <+: topicName.toList ∨ "non-persistent://".toList <+: topicName.toList ∨
      "persistent://".toList <+: topicName.toList then topicName
  else urlPathJoinText r.namespaceName [topicName]

/-- The topic of a message. -/
def topicOf (r : PulsarMQ σ) (m : ℕ) : String := r.prepareTopicName (r.messages m).routingKey

/-! ## Producers and consumers -/

/-- Ask the client for a producer. -/
def createProducer (r : PulsarMQ σ) (topicName : String) : Option (PulsarMQ σ × Option String) :=
  if r.client = false then none
  else
    match b.createProducer r.env topicName with
    | (env, some err) => some ({ r with env }, some err)
    | (env, none) => some ({ r with env, producers := r.producers ++ [topicName] }, none)

def ensureProducer (r : PulsarMQ σ) (topicName : String) : Option (PulsarMQ σ × Option String) :=
  if "" = topicName then some (r, some "Topic name should not be empty")
  else if topicName ∈ r.producers then some (r, none)
  else createProducer b r topicName

def consumerOptions (r : PulsarMQ σ) (topicName : String) (cm : MQConsumerProxy) :
    σ × ConsumerOptions :=
  let fanout := "fanout" = r.config.messageType ∨ "broadcast" = r.config.messageType
  let (env, subscriptionName) :=
    if fanout then ((b.genLoweruuid r.env).1, cm.consumerTag ++ "-" ++ (b.genLoweruuid r.env).2)
    else (r.env, cm.consumerTag)
  let subscriptionName := if r.isInstanceRPC then "rpc-consumer" else subscriptionName
  let subscriptionName := if "" = subscriptionName then topicName else subscriptionName
  (env, { name := r.name, topic := topicName, subscriptionName, exclusive := fanout ∨ r.isInstanceRPC })

/-- Another callback on the consumer of a topic. -/
def attach (r : PulsarMQ σ) (topicName : String) (cm : MQConsumerProxy) : PulsarMQ σ :=
  { r with attached := r.attached ++ [(topicName, cm)] }

/-- Ask the client for a consumer, and run the callback on it. -/
def subscribe (r : PulsarMQ σ) (topicName : String) (cm : MQConsumerProxy) :
    Option (PulsarMQ σ × Option String) :=
  if r.client = false then none
  else
    let (env, options) := consumerOptions b r topicName cm
    match b.subscribe env options with
    | (env, some err) => some ({ r with env, refused := r.refused ++ [cm] }, some err)
    | (env, none) =>
      let consumers := r.consumers.filter (fun p : String × MQConsumerProxy => p.1 ≠ topicName)
      some (attach { r with env, consumers := consumers ++ [(topicName, cm)] } topicName cm, none)

/-- `consume`: the callback runs on the consumer that the topic has, or on a new one. -/
def consume (r : PulsarMQ σ) (cm : MQConsumerProxy) : Option (PulsarMQ σ × Option String) :=
  if r.client = false then some ({ r with pendingConsumers := r.pendingConsumers ++ [cm] }, none)
  else if r.prepareTopicName cm.queue ∈ r.consumers.map Prod.fst then
    some (r.attach (r.prepareTopicName cm.queue) cm, none)
  else subscribe b r (r.prepareTopicName cm.queue) cm

/-! ## Publishing -/

def answerReplyNeededMessage (r : PulsarMQ σ) (correlationID : String) : PulsarMQ σ :=
  if "" ≠ correlationID then { r with pendingReplies := r.pendingReplies.delete correlationID } else r

/-- Tell the tracker queue about a message. -/
def publishTrackerMQMessage (r : PulsarMQ σ) (pm : MQPublishMessage) (typ : String) : Option (PulsarMQ σ) :=
  if "" = r.trackerQueue then some r
  else
    let topicName := r.prepareTopicName r.trackerQueue
    match ensureProducer b r topicName with
    | none => none
    | some (r, some _) => some r
    | some (r, none) =>
      let properties : Headers := pm.headers.foldl (fun h p => h.set p.1 p.2) []
      let content : ProducerMessage :=
        { payload := pm.body, key := pm.messageID,
          properties := (properties.set "ReplyTo" pm.replyTo).set "Type" typ }
      some { r with env := b.sendAsync r.env topicName content }

/-- A new RPC instance; its topic is that of its configuration in the namespace of the connection. -/
def newRpc (r : PulsarMQ σ) (name : String) : PulsarRpc where
  queueName := "non-persistent://" ++ urlPathJoinText r.namespaceName ["rpc-" ++ name]
  rpcCallbacks := .empty
  nonPersistent := by
    rw [String.toList_append]
    exact List.prefix_append _ _

def getRPCInstance (r : PulsarMQ σ) : PulsarMQ σ × Option PulsarRpc :=
  match r.rpc with
  | some rpc => (r, some rpc)
  | none =>
    match b.rpcName r.env with
    | (env, none) => ({ r with env }, none)
    | (env, some name) => ({ r with env, rpc := some (r.newRpc name) }, some (r.newRpc name))

/-- Make a message with a response channel answerable. -/
def ensureResponse (r : PulsarMQ σ) (m : ℕ) : PulsarMQ σ :=
  if (r.messages m).response = none then r
  else
    match getRPCInstance b r with
    | (r, none) => r
    | (r, some rpc) =>
      let (env, uuid) := b.genLoweruuid r.env
      let (rpc, messages) := rpc.ensureRPCMessage r.messages uuid m
      { r with env, rpc := some rpc, messages }

def producerMessage (pm : MQPublishMessage) : ProducerMessage :=
  { payload := pm.body, key := pm.messageID, properties := preparePublishMessageProperties [] pm }

/-- The reply it may have been, the tracker and the publisher learn that a message was sent. -/
def afterPublish (r : PulsarMQ σ) (m : ℕ) (pm : MQPublishMessage) : Option (PulsarMQ σ) :=
  let tracked :=
    if "" ≠ pm.correlationID then
      publishTrackerMQMessage b (r.answerReplyNeededMessage pm.correlationID) pm "2"
    else some r
  tracked.map fun r =>
    if pm.publishStatus.isSome then
      { r with statuses := r.statuses ++ [(m, ⟨.ok, pm.eventLabel, "Publish success"⟩)] }
    else r

/-- What `publish` does with the producer of the topic. -/
def handOver (r : PulsarMQ σ) (m : ℕ) (topicName : String) : Option (PulsarMQ σ) :=
  let r := ensureResponse b r m
  let content := producerMessage (r.messages m)
  let r := { r with env := b.sendAsync r.env topicName content, sent := r.sent ++ [⟨m, topicName, content⟩] }
  afterPublish b r m (r.messages m)

def publish (r : PulsarMQ σ) (m : ℕ) : Option (PulsarMQ σ × Option String) :=
  if r.client = false then some ({ r with pendingPublishes := r.pendingPublishes ++ [m] }, none)
  else
    match ensureProducer b r (r.topicOf m) with
    | none => none
    | some (r, some err) => some ({ r with rejected := r.rejected ++ [m] }, some err)
    | some (r, none) => (handOver b r m (r.topicOf m)).map fun r => (r, none)

/-! ## The connection -/

/-- `ensurePendings`: the consumers that waited come before the messages. -/
def ensurePendings (r : PulsarMQ σ) : Option (PulsarMQ σ) := do
  let r ← r.pendingConsumers.foldlM (fun r cm => (consume b r cm).map Prod.fst)
    { r with pendingConsumers := [] }
  r.pendingPublishes.foldlM (fun r m => (publish b r m).map Prod.fst) { r with pendingPublishes := [] }

/-- `init`: unless the driver is another or the address cannot be formed, an attempt to connect
starts, which only ends when it succeeds. -/
def init (r : PulsarMQ σ) : PulsarMQ σ :=
  if r.driver ≠ "pulsar" then r
  else
    match b.formatConnectionDSN r.env with
    | (env, some _) => { r with env, connecting := true }
    | (env, none) => { r with env, connecting := true, dialing := r.dialing + 1 }

/-- What `Run` does when there is no client and none is on its way: the consumers wait again, one
for each topic, and the producers are forgotten. -/
def reconnect (r : PulsarMQ σ) : PulsarMQ σ :=
  init b { r with
    pendingConsumers := r.pendingConsumers ++ b.rangeConsumers r.env (r.consumers.map Prod.snd)
    consumers := [], producers := [], attached := [] }

def close (r : PulsarMQ σ) : PulsarMQ σ := { r with connecting := false, client := false }

/-- An attempt to connect has succeeded. -/
def connected (r : PulsarMQ σ) : PulsarMQ σ :=
  { r with connecting := false, client := true, dialing := r.dialing - 1 }

end PulsarMQ
end Gocom
