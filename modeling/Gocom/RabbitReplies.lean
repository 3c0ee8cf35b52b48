import Gocom.FilterGate
import Gocom.RabbitPublishRuns

/-!
# Where replies go

A delivery that wants a reply is noted by its correlation identifier before its callback runs,
and the response is published like any other message: to the routing key it carries, through
the default exchange while the reply is still owed. Only the reply address of the response is
overwritten with the address of the delivery, so the response arrives there only when its
routing key already was that address.
-/

namespace Gocom

/-- What a consumer is told about a delivery. -/
def generateMQResponseMessage (d : Delivery) (exchangeName : String) : MQConsumerMessage :=
  { driver := "rabbitmq", queue := d.routingKey, correlationID := d.correlationId,
    consumerTag := d.consumerTag, replyTo := d.replyTo, messageID := d.messageId, appID := d.appId,
    userID := d.userId, contentType := d.contentType,
    exchange := if "" = d.exchange then exchangeName else d.exchange,
    routingKey := d.routingKey, timestamp := d.timestamp, body := d.body, headers := d.headers }

/-- A callback computes the response and the address it is kept at. -/
abbrev AMQPConsumerCallback := Delivery → Option (ℕ × MQPublishMessage)

/-- The callback of a consumer that answers consumer messages; `address` is where its
response is kept. -/
def generateRabbitMQConsumerProxy (exchangeName : String) (address : ℕ)
    (callback : MQConsumerMessage → Option MQPublishMessage) : AMQPConsumerCallback :=
  fun d => (callback (generateMQResponseMessage d exchangeName)).map (address, ·)

namespace RabbitMQ

variable {σ : Type*} (b : Broker σ)

def setReplyNeededMessage (r : RabbitMQ σ) (d : Delivery) : RabbitMQ σ :=
  if "" ≠ d.correlationId ∧ "" ≠ d.replyTo then
    { r with pendingReplies := r.pendingReplies.store d.correlationId d }
  else r

def generatePublishMessageByDelivery (d : Delivery) (queueName : String) (body : Bytes) :
    MQPublishMessage :=
  { body, routingKey := queueName, correlationID := d.correlationId, replyTo := d.replyTo,
    messageID := d.messageId, appID := d.appId, userID := d.userId, contentType := d.contentType,
    headers := d.headers }

/-- Write a message to an address. -/
def withMessage (r : RabbitMQ σ) (m : ℕ) (pm : MQPublishMessage) : RabbitMQ σ :=
  { r with messages := fun k => if k = m then pm else r.messages k }

/-- Publish the response of a callback unless the delivery has been answered. -/
def publishResponse (r : RabbitMQ σ) (d : Delivery) (m : ℕ) (resp : MQPublishMessage) :
    RabbitMQ σ :=
  let r := r.withMessage m resp
  if isReplyNeededMessageAnswered r d.correlationId = false then
    (publish b (r.withMessage m { resp with replyTo := d.replyTo }) m).1
  else r

def handleConsumeCallback (r : RabbitMQ σ) (d : Delivery) (cb : Option AMQPConsumerCallback)
    (autoAck : Bool) : RabbitMQ σ :=
  let r := match cb with
    | none => r
    | some cb =>
      if "" ≠ d.correlationId ∧ "" ≠ d.replyTo then
        let r := r.setReplyNeededMessage d
        let r := match cb d with
          | none => r
          | some (m, resp) => publishResponse b r d m resp
        if "" ≠ r.trackerQueue then
          publishTrackerMQMessage b r (generatePublishMessageByDelivery d r.trackerQueue []) "1"
        else r
      else r
  if autoAck = false then { r with env := b.ack r.env d } else r

/-! ## What is handed over -/

/-- The identifier a message is published with: a fresh one when it waits for a reply and has
none of its own. -/
def correlationOf (r : RabbitMQ σ) (pm : MQPublishMessage) : String :=
  if pm.response = none ∨ "" ≠ pm.correlationID then pm.correlationID
  else
    match r.rpc with
    | some _ => (b.genLoweruuid r.env).2
    | none =>
      match b.rpcQueue r.env with
      | (_, none) => pm.correlationID
      | (env, some _) => (b.genLoweruuid env).2

/-- Making a message answerable changes its identifiers and the RPC instance only. -/
structure Answerable (r r' : RabbitMQ σ) (m : ℕ) (correlationID : String) : Prop where
  handed : r'.handed = r.handed
  pendingReplies : r'.pendingReplies = r.pendingReplies
  queueInfo : r'.queueInfo = r.queueInfo
  config : r'.config = r.config
  correlation : (r'.messages m).correlationID = correlationID
  skip : (r'.messages m).skipExchange = (r.messages m).skipExchange
  body : (r'.messages m).body = (r.messages m).body

theorem ensureRPCMessage_message (rpc : RpcInstance) (messages : ℕ → MQPublishMessage)
    (uuid : String) (m : ℕ) : (rpc.ensureRPCMessage messages uuid m).2 m =
      { messages m with
        correlationID := if "" = (messages m).correlationID then uuid else (messages m).correlationID
        replyTo := rpc.queueName } :=
  if_pos rfl

/-- Registering with an RPC instance. -/
theorem registered_answerable (r : RabbitMQ σ) (m : ℕ) (rpc : RpcInstance) (env : σ)
    (uuid : String) : Answerable r { r with
      env
      rpc := some (rpc.ensureRPCMessage r.messages uuid m).1
      messages := (rpc.ensureRPCMessage r.messages uuid m).2 } m
        (if "" = (r.messages m).correlationID then uuid else (r.messages m).correlationID) := by
  have hm := ensureRPCMessage_message rpc r.messages uuid m
  exact ⟨rfl, rfl, rfl, rfl, congrArg MQPublishMessage.correlationID hm,
    (congrArg MQPublishMessage.skipExchange hm :), (congrArg MQPublishMessage.body hm :)⟩

theorem ensureResponse_answerable (r : RabbitMQ σ) (m : ℕ) :
    Answerable r (ensureResponse b r m) m (correlationOf b r (r.messages m)) := by
  rw [ensureResponse, correlationOf]
  by_cases hresp : (r.messages m).response = none
  · rw [if_pos hresp, if_pos (.inl hresp)]
    exact ⟨rfl, rfl, rfl, rfl, rfl, rfl, rfl⟩
  · have hif : ∀ uuid, (if (r.messages m).response = none ∨ "" ≠ (r.messages m).correlationID
        then (r.messages m).correlationID else uuid) =
        if "" = (r.messages m).correlationID then uuid else (r.messages m).correlationID := by
      intro uuid
      by_cases hid : "" = (r.messages m).correlationID <;> simp [hid, hresp]
    rw [if_neg hresp, hif]
    cases hrpc : r.rpc with
    | some rpc =>
      simp only [getRPCInstance, hrpc]
      exact registered_answerable r m rpc _ _
    | none =>
      cases hq : b.rpcQueue r.env with
      | mk env queueName =>
        cases queueName with
        | none =>
          simp only [getRPCInstance, hrpc, hq, ite_self]
          exact ⟨rfl, rfl, rfl, rfl, rfl, rfl, rfl⟩
        | some queueName =>
          simp only [getRPCInstance, hrpc, hq]
          exact registered_answerable r m _ _ _

theorem publishTrackerMQMessage_handed (r : RabbitMQ σ) (pm : MQPublishMessage) (typ : String) :
    (publishTrackerMQMessage b r pm typ).handed = r.handed := by
  rw [publishTrackerMQMessage]
  split_ifs <;> rfl

theorem afterPublish_handed (r : RabbitMQ σ) (m : ℕ) (pm : MQPublishMessage)
    (err : Option String) : (afterPublish b r m pm err).handed = r.handed := by
  have hanswer : (r.answerReplyNeededMessage pm.correlationID).handed = r.handed := by
    rw [answerReplyNeededMessage]
    split_ifs <;> rfl
  have htrack := publishTrackerMQMessage_handed b (r.answerReplyNeededMessage pm.correlationID) pm "2"
  rw [afterPublish]
  split_ifs
  · exact htrack.trans hanswer
  · rfl
  · exact htrack.trans hanswer
  · rfl

/-- The one call of `Channel.Publish` that handing over a message makes. -/
theorem handOver_handed (r : RabbitMQ σ) (m : ℕ) :
    (handOver b r m).1.handed = r.handed ++ [⟨m,
      (destination (ensureResponse b r m) ((ensureResponse b r m).messages m)
        (r.messages m).exchange (r.messages m).routingKey).1,
      (destination (ensureResponse b r m) ((ensureResponse b r m).messages m)
        (r.messages m).exchange (r.messages m).routingKey).2,
      publishingOf ((ensureResponse b r m).messages m)⟩] := by
  rw [handOver]
  dsimp only
  rw [afterPublish_handed, (ensureResponse_answerable b r m).handed]

theorem destination_snd (r : RabbitMQ σ) (pm : MQPublishMessage) (exchangeName routingKey : String) :
    (destination r pm exchangeName routingKey).2 =
      if "" = routingKey then r.queueInfo.name else routingKey := by
  rw [destination]
  split_ifs <;> rfl

/-- A message that is an owed reply goes to the default exchange. -/
theorem destination_fst_of_owed {r : RabbitMQ σ} {pm : MQPublishMessage}
    (hid : "" ≠ pm.correlationID) (howed : isReplyNeededMessageAnswered r pm.correlationID = false)
    (exchangeName routingKey : String) : (destination r pm exchangeName routingKey).1 = "" := by
  have hdefault : pm.skipExchange = true ∨
      ("" ≠ pm.correlationID ∧ isReplyNeededMessageAnswered r pm.correlationID = false) :=
    .inr ⟨hid, howed⟩
  simp only [destination, if_pos hdefault]
  split_ifs <;> rfl

/-- Exactly one message is handed over since `r`: the response, to the default exchange, with
the reply address as routing key and the identifier of the delivery. -/
def Replies (r r' : RabbitMQ σ) (d : Delivery) (m : ℕ) (resp : MQPublishMessage) : Prop :=
  ∃ h, r'.handed = r.handed ++ [h] ∧ h.message = m ∧ h.exchange = "" ∧ h.routingKey = d.replyTo ∧
    h.publishing.correlationId = d.correlationId ∧ h.publishing.body = resp.body

/-- The response carries the delivery's identifier, and its routing key, or the queue of the
instance in its absence, is the reply address. -/
def Addressed (r : RabbitMQ σ) (d : Delivery) (resp : MQPublishMessage) : Prop :=
  correlationOf b r resp = d.correlationId ∧
    (resp.routingKey = d.replyTo ∨ (resp.routingKey = "" ∧ r.queueInfo.name = d.replyTo))

theorem publishResponse_replies_iff {r : RabbitMQ σ} (hr : r.Ready) {d : Delivery}
    (hid : "" ≠ d.correlationId) (hreply : "" ≠ d.replyTo) (m : ℕ) (resp : MQPublishMessage) :
    Replies r (publishResponse b (r.setReplyNeededMessage d) d m resp) d m resp ↔
      Addressed b r d resp := by
  have hset : r.setReplyNeededMessage d =
      { r with pendingReplies := r.pendingReplies.store d.correlationId d } :=
    if_pos ⟨hid, hreply⟩
  have howed : isReplyNeededMessageAnswered ((r.setReplyNeededMessage d).withMessage m resp)
      d.correlationId = false := by
    simp [isReplyNeededMessageAnswered, withMessage, hset, hid]
  rw [publishResponse, if_pos howed, publish]
  -- the state in which the response is published
  generalize hs : ((r.setReplyNeededMessage d).withMessage m resp).withMessage m
    { resp with replyTo := d.replyTo } = s
  have hready : s.Ready := by
    rw [← hs, hset]
    exact hr
  have hmsg : s.messages m = { resp with replyTo := d.replyTo } := by
    rw [← hs]
    exact if_pos rfl
  have hpending : s.pendingReplies d.correlationId = some d := by
    rw [← hs, hset]
    exact GoMap.store_self _ _ _
  have hans := ensureResponse_answerable b s m
  have hcorr : correlationOf b s (s.messages m) = correlationOf b r resp := by
    rw [hmsg, ← hs, hset]
    rfl
  have hhanded := handOver_handed b s m
  have hold : s.handed = r.handed := by rw [← hs, hset]; rfl
  have hname : s.queueInfo.name = r.queueInfo.name := by rw [← hs, hset]; rfl
  rw [hold, hmsg] at hhanded
  rw [publishWith_ready b hready]
  have hkey := destination_snd (ensureResponse b s m) ((ensureResponse b s m).messages m)
    resp.exchange resp.routingKey
  rw [hans.queueInfo, hname] at hkey
  constructor
  · rintro ⟨h, heq, -, -, hrouting, hid', -⟩
    rw [hhanded] at heq
    obtain rfl := List.singleton_inj.mp (List.append_cancel_left heq)
    refine ⟨hcorr.symm.trans (hans.correlation.symm.trans hid'), ?_⟩
    have hrouting : (if "" = resp.routingKey then r.queueInfo.name else resp.routingKey) =
        d.replyTo := hkey.symm.trans hrouting
    split_ifs at hrouting with hempty
    · exact .inr ⟨hempty.symm, hrouting⟩
    · exact .inl hrouting
  · rintro ⟨hid', hrouting⟩
    have hpm : ((ensureResponse b s m).messages m).correlationID = d.correlationId :=
      hans.correlation.trans (hcorr.trans hid')
    refine ⟨_, hhanded, rfl, ?_, hkey.trans ?_, hpm, ?_⟩
    · refine destination_fst_of_owed (by rwa [hpm]) ?_ _ _
      rw [hpm]
      simp [isReplyNeededMessageAnswered, hans.pendingReplies, hpending, hid]
    · rcases hrouting with hrouting | ⟨hempty, hqueue⟩
      · rw [if_neg (fun h => hreply (h.trans hrouting)), hrouting]
      · rw [if_pos hempty.symm, hqueue]
    · have hbody := hans.body
      rw [hmsg] at hbody
      exact hbody

/-- A callback that answers makes the instance hand over its response only. -/
theorem handleConsumeCallback_handed (r : RabbitMQ σ) {d : Delivery} (hid : "" ≠ d.correlationId)
    (hreply : "" ≠ d.replyTo) (cb : AMQPConsumerCallback) {m : ℕ} {resp : MQPublishMessage}
    (hcb : cb d = some (m, resp)) (autoAck : Bool) :
    (handleConsumeCallback b r d (some cb) autoAck).handed =
      (publishResponse b (r.setReplyNeededMessage d) d m resp).handed := by
  have hwants : "" ≠ d.correlationId ∧ "" ≠ d.replyTo := ⟨hid, hreply⟩
  simp only [handleConsumeCallback, if_pos hwants, hcb]
  split_ifs
  · exact publishTrackerMQMessage_handed b _ _ "1"
  · rfl
  · exact publishTrackerMQMessage_handed b _ _ "1"
  · rfl

theorem correlationOf_of_response {r : RabbitMQ σ} {resp : MQPublishMessage}
    (h : resp.response = none) : correlationOf b r resp = resp.correlationID := if_pos (.inl h)

/-- The responses of handlers echo the routing key of the delivery, so they come addressed only
when the delivery was sent to its own reply address. -/
theorem addressed_iff_of_echoes (r : RabbitMQ σ) (d : Delivery) (exchangeName : String)
    {resp : MQPublishMessage} (h : MqHandler.Echoes (generateMQResponseMessage d exchangeName) resp) :
    Addressed b r d resp ↔
      d.routingKey = d.replyTo ∨ (d.routingKey = "" ∧ r.queueInfo.name = d.replyTo) := by
  rw [Addressed, correlationOf_of_response b h.response, h.correlationID, h.routingKey]
  exact and_iff_right rfl

/-- So the replies of a handler that answers by itself only arrive in that case. -/
theorem handler_replies_iff {τ π : Type*} {s : Serializers π} {h : MqHandler τ π} {w : τ}
    (hdelegates : h.controller.delegates h.name = [])
    (hown : ∀ w inParams, ((h.outTypes.zip (h.caller w inParams).2).foldl
      (fun o p => MqHandler.collectOutput s o p.1 p.2) {}).pubMsg = none)
    {r : RabbitMQ σ} (hr : r.Ready) {d : Delivery} (hid : "" ≠ d.correlationId)
    (hreply : "" ≠ d.replyTo) {address : ℕ} {resp : MQPublishMessage}
    (hresp : (h.execute s (generateMQResponseMessage d r.config.exchangeName) w).resp = some resp)
    (autoAck : Bool) :
    Replies r (handleConsumeCallback b r d (some (generateRabbitMQConsumerProxy
        r.config.exchangeName address fun msg => (h.execute s msg w).resp)) autoAck) d address resp ↔
      d.routingKey = d.replyTo ∨ (d.routingKey = "" ∧ r.queueInfo.name = d.replyTo) := by
  have hcb : generateRabbitMQConsumerProxy r.config.exchangeName address
      (fun msg => (h.execute s msg w).resp) d = some (address, resp) := by
    rw [generateRabbitMQConsumerProxy, hresp]
    rfl
  rw [Replies, handleConsumeCallback_handed b r hid hreply _ hcb, ← Replies,
    publishResponse_replies_iff b hr hid hreply,
    addressed_iff_of_echoes b r d r.config.exchangeName (MqHandler.execute_echoes s hdelegates hown hresp)]

end RabbitMQ
end Gocom
