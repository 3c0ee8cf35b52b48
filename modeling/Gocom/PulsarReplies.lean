import Gocom.PulsarDelivery
import Gocom.RabbitReplies

/-!
# Requests and replies over Pulsar

A message with a response channel is published with an identifier and the topic of the RPC instance
as its reply address, and waits under its identifier. Whoever consumes it answers by publishing the
message its callback returns, to the routing key of that message; the answer made for the purpose
has the reply address there.
-/

namespace Gocom
namespace PulsarMQ

variable {σ : Type*} (b : PulsarBroker σ)

def setReplyNeededMessage (r : PulsarMQ σ) (m : MQConsumerMessage) : PulsarMQ σ :=
  if "" ≠ m.correlationID ∧ "" ≠ m.replyTo then
    { r with pendingReplies := r.pendingReplies.store m.correlationID m }
  else r

def isReplyNeededMessageAnswered (r : PulsarMQ σ) (correlationID : String) : Bool :=
  "" = correlationID ∨ r.pendingReplies correlationID = none

def generatePublishMessageByDelivery (m : MQConsumerMessage) (queueName : String) (body : Bytes) :
    MQPublishMessage :=
  { body, routingKey := queueName, correlationID := m.correlationID, replyTo := m.replyTo,
    messageID := m.messageID, appID := m.appID, userID := m.userID, contentType := m.contentType,
    headers := m.headers }

/-- A callback computes the response and the address it is kept at. -/
abbrev Callback := MQConsumerMessage → Option (ℕ × MQPublishMessage)

/-- Write a message to an address. -/
def withMessage (r : PulsarMQ σ) (k : ℕ) (pm : MQPublishMessage) : PulsarMQ σ :=
  { r with messages := fun a => if a = k then pm else r.messages a }

/-- Publish the response of a callback unless the message has been answered. -/
def publishResponse (r : PulsarMQ σ) (m : MQConsumerMessage) (k : ℕ) (resp : MQPublishMessage) :
    Option (PulsarMQ σ) :=
  if isReplyNeededMessageAnswered r m.correlationID = false then
    (PulsarMQ.publish b (r.withMessage k { resp with replyTo := m.replyTo }) k).map Prod.fst
  else some (r.withMessage k resp)

/-- What a callback does with a message. -/
def callBack (r : PulsarMQ σ) (m : MQConsumerMessage) (cb : Callback) : Option (PulsarMQ σ) :=
  if "" ≠ m.correlationID ∧ "" ≠ m.replyTo then do
    let r := r.setReplyNeededMessage m
    let r ← match cb m with
      | none => some r
      | some (k, resp) => publishResponse b r m k resp
    if "" ≠ r.trackerQueue then
      publishTrackerMQMessage b r (generatePublishMessageByDelivery m r.trackerQueue []) "1"
    else some r
  else some r

/-- Every message is acknowledged in the end. -/
def handleConsumeCallback (r : PulsarMQ σ) (cb : Option Callback) (msg : Message) (consumerTag : String) :
    Option (PulsarMQ σ) :=
  let handled := match cb with
    | none => some r
    | some cb => callBack b r (consumerMessage r.driver consumerTag msg) cb
  handled.map fun r => { r with env := b.ack r.env msg }

/-! ## A broker that grants producers -/

def GrantsProducers : Prop := ∀ env topicName, (b.createProducer env topicName).2 = none

variable {b}

theorem ensureProducer_granted (hb : GrantsProducers b) {r : PulsarMQ σ} (hclient : r.client = true)
    {topicName : String} (htopic : "" ≠ topicName) :
    ∃ env producers, ensureProducer b r topicName = some ({ r with env, producers }, none) := by
  rw [ensureProducer, if_neg htopic]
  by_cases hfound : topicName ∈ r.producers
  · rw [if_pos hfound]
    exact ⟨r.env, r.producers, rfl⟩
  · have hnot : ¬ r.client = false := by simp [hclient]
    have hgrant := hb r.env topicName
    rw [if_neg hfound, PulsarMQ.createProducer, if_neg hnot]
    cases hc : b.createProducer r.env topicName with
    | mk env result =>
      rw [hc] at hgrant
      obtain rfl : result = none := hgrant
      exact ⟨env, _, rfl⟩

theorem publishTrackerMQMessage_granted (hb : GrantsProducers b) {r : PulsarMQ σ} (hclient : r.client = true)
    (pm : MQPublishMessage) (typ : String) :
    ∃ env producers, publishTrackerMQMessage b r pm typ = some { r with env, producers } := by
  rw [publishTrackerMQMessage]
  by_cases htracker : "" = r.trackerQueue
  · rw [if_pos htracker]
    exact ⟨r.env, r.producers, rfl⟩
  · rw [if_neg htracker]
    by_cases htopic : "" = r.prepareTopicName r.trackerQueue
    · have hp : ensureProducer b r (r.prepareTopicName r.trackerQueue) =
          some (r, some "Topic name should not be empty") := by rw [ensureProducer, if_pos htopic]
      simp only [hp]
      exact ⟨r.env, r.producers, rfl⟩
    · obtain ⟨env, producers, hp⟩ := ensureProducer_granted hb hclient htopic
      simp only [hp]
      exact ⟨_, producers, rfl⟩

theorem afterPublish_granted (hb : GrantsProducers b) {r : PulsarMQ σ} (hclient : r.client = true) (m : ℕ)
    (pm : MQPublishMessage) : ∃ env producers pendingReplies statuses,
      afterPublish b r m pm = some { r with env, producers, pendingReplies, statuses } := by
  rw [afterPublish]
  by_cases hid : "" ≠ pm.correlationID
  · have hkept : (r.answerReplyNeededMessage pm.correlationID).client = true := by
      rw [answerReplyNeededMessage, if_pos hid]
      exact hclient
    obtain ⟨env, producers, ht⟩ := publishTrackerMQMessage_granted hb hkept pm "2"
    rw [if_pos hid, ht, answerReplyNeededMessage, if_pos hid, Option.map_some]
    split_ifs
    · exact ⟨env, producers, _, _, rfl⟩
    · exact ⟨env, producers, _, r.statuses, rfl⟩
  · rw [if_neg hid, Option.map_some]
    split_ifs
    · exact ⟨r.env, r.producers, r.pendingReplies, _, rfl⟩
    · exact ⟨r.env, r.producers, r.pendingReplies, r.statuses, rfl⟩

variable (b) in
/-- What sending a message changes beside the connection. -/
structure Sends (r r₁ : PulsarMQ σ) (m : ℕ) (topicName : String) : Prop where
  sent : r₁.sent = r.sent ++ [⟨m, topicName, producerMessage (r₁.messages m)⟩]
  client : r₁.client = r.client
  trackerQueue : r₁.trackerQueue = r.trackerQueue
  response : ∃ env producers, r₁.messages = (ensureResponse b { r with env, producers } m).messages ∧
    r₁.rpc = (ensureResponse b { r with env, producers } m).rpc

theorem handOver_granted (hb : GrantsProducers b) {r : PulsarMQ σ} (hclient : r.client = true) (m : ℕ)
    (topicName : String) : ∃ r₁, handOver b r m topicName = some r₁ ∧ Sends b r r₁ m topicName := by
  obtain ⟨env, rpc, messages, hresponse⟩ := ensureResponse_frame b r m
  obtain ⟨env', producers, pendingReplies, statuses, ha⟩ := afterPublish_granted hb (r := { r with
    env := b.sendAsync env topicName (producerMessage (messages m)), rpc, messages,
    sent := r.sent ++ [⟨m, topicName, producerMessage (messages m)⟩] }) hclient m (messages m)
  rw [handOver, hresponse]
  exact ⟨_, ha, rfl, rfl, rfl, r.env, r.producers, by rw [hresponse], by rw [hresponse]⟩

/-- With a client and a topic a message is sent at once. -/
theorem publish_granted (hb : GrantsProducers b) {r : PulsarMQ σ} (hclient : r.client = true) {m : ℕ}
    (htopic : "" ≠ r.topicOf m) :
    ∃ r₁, PulsarMQ.publish b r m = some (r₁, none) ∧ Sends b r r₁ m (r.topicOf m) := by
  obtain ⟨env, producers, hp⟩ := ensureProducer_granted hb hclient htopic
  obtain ⟨r₁, hover, hsends⟩ := handOver_granted hb (r := { r with env, producers }) hclient m (r.topicOf m)
  have hnot : ¬ r.client = false := by simp [hclient]
  refine ⟨r₁, ?_, hsends.sent, hsends.client, hsends.trackerQueue, hsends.response⟩
  rw [PulsarMQ.publish, if_neg hnot, hp]
  exact congrArg (Option.map fun r => (r, none)) hover

/-! ## Requests -/

/-- A message with an identifier waits for its reply, and so does the message that waited under the
identifier before. -/
theorem ensureRPCMessage_waits (rpc : RpcInstance) (messages : ℕ → MQPublishMessage) (uuid : String)
    (m : ℕ) : ∃ m', (rpc.ensureRPCMessage messages uuid m).1.rpcCallbacks
        ((rpc.ensureRPCMessage messages uuid m).2 m).correlationID = some m' ∧
      (m' = m ∨ ((rpc.ensureRPCMessage messages uuid m).2 m').response.isSome) := by
  have hstored : (rpc.ensureRPCMessage messages uuid m).1 =
      if (rpc.rpcCallbacks ((rpc.ensureRPCMessage messages uuid m).2 m).correlationID).any
          fun originPm => ((rpc.ensureRPCMessage messages uuid m).2 originPm).response.isSome
      then rpc
      else { rpc with rpcCallbacks :=
        rpc.rpcCallbacks.store ((rpc.ensureRPCMessage messages uuid m).2 m).correlationID m } := by
    rw [RabbitMQ.ensureRPCMessage_message, RpcInstance.ensureRPCMessage]
    dsimp only
    cases rpc.rpcCallbacks (if "" = (messages m).correlationID then uuid else (messages m).correlationID) <;> rfl
  rw [hstored]
  generalize (rpc.ensureRPCMessage messages uuid m).2 = messages'
  cases hold : rpc.rpcCallbacks (messages' m).correlationID with
  | none => exact ⟨m, GoMap.store_self _ _ _, .inl rfl⟩
  | some k =>
    rw [Option.any_some]
    split_ifs with hwaits
    · exact ⟨k, hold, .inr hwaits⟩
    · exact ⟨m, GoMap.store_self _ _ _, .inl rfl⟩

/-- The message can be answered: it has an identifier, the reply address is the topic of the RPC
instance, and there a message waits under the identifier. -/
def Answerable (r : PulsarMQ σ) (m : ℕ) : Prop :=
  ∃ rpc : PulsarRpc, r.rpc = some rpc ∧ (r.messages m).replyTo = rpc.queueName ∧
    "" ≠ (r.messages m).correlationID ∧
    ∃ m', rpc.rpcCallbacks (r.messages m).correlationID = some m' ∧
      (m' = m ∨ (r.messages m').response.isSome)

theorem registered_answerable (r : PulsarMQ σ) {m : ℕ} {uuid : String} (huuid : "" ≠ uuid) (rpc : PulsarRpc)
    (env : σ) : Answerable { r with
      env
      rpc := some (rpc.ensureRPCMessage r.messages uuid m).1
      messages := (rpc.ensureRPCMessage r.messages uuid m).2 } m := by
  refine ⟨_, rfl, ?_, ?_, ensureRPCMessage_waits rpc.toRpcInstance r.messages uuid m⟩
  · exact (congrArg MQPublishMessage.replyTo (RabbitMQ.ensureRPCMessage_message _ _ _ _)).trans
      (RpcInstance.ensureRPCMessage_queueName _ _ _ _).symm
  · simp only [PulsarRpc.ensureRPCMessage, RabbitMQ.ensureRPCMessage_message]
    split_ifs with hempty
    · exact huuid
    · exact hempty

/-- A message with a response channel is made answerable, if there is an RPC instance or one can be
made. -/
theorem ensureResponse_answerable (huuid : ∀ env, "" ≠ (b.genLoweruuid env).2)
    (hrpc : ∀ env, (b.rpcName env).2 ≠ none) {r : PulsarMQ σ} {m : ℕ}
    (hresponse : (r.messages m).response ≠ none) : Answerable (ensureResponse b r m) m := by
  rw [ensureResponse, if_neg hresponse, getRPCInstance]
  cases hold : r.rpc with
  | some rpc => exact registered_answerable r (huuid r.env) rpc _
  | none =>
    have hname := hrpc r.env
    cases hn : b.rpcName r.env with
    | mk env name =>
      rw [hn] at hname
      cases name with
      | none => exact absurd rfl hname
      | some name => exact registered_answerable { r with env, rpc := some (r.newRpc name) } (huuid env) _ _

/-! ## Replies -/

theorem writeFields_of_ne {fields : List (String × String)} (hnames : (fields.map Prod.fst).Nodup)
    {p : String × String} (hp : p ∈ fields) (hne : "" ≠ p.2) (properties : Headers) :
    property (writeFields properties fields) p.1 = p.2 := by
  induction fields generalizing properties with
  | nil => exact absurd hp List.not_mem_nil
  | cons q fields ih =>
    obtain ⟨hfresh, hrest⟩ := List.nodup_cons.mp hnames
    obtain rfl | hp := List.mem_cons.mp hp
    · have hother : ∀ x ∈ fields, p.1 ≠ x.1 := fun x hx h => hfresh (h ▸ List.mem_map_of_mem hx)
      have hlater := writeFields_other hother (setProperty properties p.1 p.2)
      change property (writeFields (setProperty properties p.1 p.2) fields) p.1 = p.2
      rw [property, hlater, setProperty_apply, if_pos ⟨hne, rfl⟩]
      rfl
    · exact ih hrest hp (setProperty properties q.1 q.2)

/-- A field that is not empty comes through under its name, whatever the headers say. -/
theorem property_of_field {pm : MQPublishMessage} {p : String × String}
    (hp : p ∈ (protocolFields pm).dropLast) (hne : "" ≠ p.2) :
    property (preparePublishMessageProperties [] pm) p.1 = p.2 := by
  have hnames : ((protocolFields pm).dropLast.map Prod.fst).Nodup := by
    change [propertyAppID, propertyUserID, propertyMessageID, propertyCorrelationID,
      propertyReplyTo, propertyContentType].Nodup
    decide
  exact writeFields_of_ne hnames hp hne _

theorem prepareTopicName_of_nonPersistent (r : PulsarMQ σ) {topicName : String}
    (h : "non-persistent://".toList <+: topicName.toList) : r.prepareTopicName topicName = topicName := by
  have hne : "" ≠ topicName := by
    rintro rfl
    exact absurd h (by decide)
  rw [prepareTopicName, if_neg hne, if_pos (.inr (.inl h))]

/-- One message is sent since `r`: the reply to an identifier, to a topic, with a body. -/
structure Replied (r r' : PulsarMQ σ) (h : SentMessage) (topicName correlationID : String) (body : Bytes) :
    Prop where
  sent : r'.sent = r.sent ++ [h]
  topic : h.topic = topicName
  payload : h.content.payload = body
  correlation : property h.content.properties propertyCorrelationID = correlationID

theorem publishResponse_replied (hb : GrantsProducers b) {r : PulsarMQ σ} (hclient : r.client = true)
    {m : MQConsumerMessage} (hid : "" ≠ m.correlationID)
    (hreply : "non-persistent://".toList <+: m.replyTo.toList) (k : ℕ) (body : Bytes) :
    ∃ r₁ h, publishResponse b (r.setReplyNeededMessage m) m k (.newMQResponseMessage body (some m)) = some r₁ ∧
      r₁.client = true ∧ Replied r r₁ h m.replyTo m.correlationID body := by
  have hne : "" ≠ m.replyTo := by
    intro hempty
    rw [← hempty] at hreply
    exact absurd hreply (by decide)
  have hset : r.setReplyNeededMessage m =
      { r with pendingReplies := r.pendingReplies.store m.correlationID m } := if_pos ⟨hid, hne⟩
  have howed : isReplyNeededMessageAnswered (r.setReplyNeededMessage m) m.correlationID = false := by
    simp [isReplyNeededMessageAnswered, hset, hid]
  rw [publishResponse, if_pos howed, hset]
  -- the state in which the response is published
  generalize hs : withMessage { r with pendingReplies := r.pendingReplies.store m.correlationID m } k
    { MQPublishMessage.newMQResponseMessage body (some m) with replyTo := m.replyTo } = s
  have hmessage : s.messages k = { MQPublishMessage.newMQResponseMessage body (some m) with replyTo := m.replyTo } := by
    rw [← hs]
    exact if_pos rfl
  have hsclient : s.client = true := by
    rw [← hs]
    exact hclient
  have hssent : s.sent = r.sent := by
    rw [← hs]
    rfl
  have htopic : s.topicOf k = m.replyTo := by
    rw [topicOf, hmessage]
    exact prepareTopicName_of_nonPersistent s hreply
  obtain ⟨r₁, hpublish, hsends⟩ := publish_granted hb hsclient (htopic ▸ hne)
  obtain ⟨env, producers, hmessages, -⟩ := hsends.response
  have hnone : (s.messages k).response = none := by
    rw [hmessage]
    rfl
  have hsame : r₁.messages k = s.messages k := by
    rw [hmessages, ensureResponse, if_pos hnone]
  refine ⟨r₁, _, by rw [hpublish]; rfl, hsends.client.trans hsclient, hsends.sent.trans (by rw [hssent]), htopic, ?_, ?_⟩
  · rw [hsame, hmessage]
    rfl
  · rw [hsame, hmessage]
    exact property_of_field (p := (propertyCorrelationID, m.correlationID)) (by simp [protocolFields,
      MQPublishMessage.newMQResponseMessage]) hid

/-- The answer made for the purpose goes to the reply address, under the identifier of the request. -/
theorem handleConsumeCallback_replied (hb : GrantsProducers b) {r : PulsarMQ σ} (hclient : r.client = true)
    {msg : Message} {consumerTag : String} {m : MQConsumerMessage}
    (hm : consumerMessage r.driver consumerTag msg = m) (hid : "" ≠ m.correlationID)
    (hreply : "non-persistent://".toList <+: m.replyTo.toList) {cb : Callback} {k : ℕ} {body : Bytes}
    (hcb : cb m = some (k, .newMQResponseMessage body (some m))) :
    ∃ r₁ h, handleConsumeCallback b r (some cb) msg consumerTag = some r₁ ∧
      Replied r r₁ h m.replyTo m.correlationID body := by
  have hne : "" ≠ m.replyTo := by
    intro hempty
    rw [← hempty] at hreply
    exact absurd hreply (by decide)
  obtain ⟨r₁, h, hresponse, hclient', hreplied⟩ := publishResponse_replied hb hclient hid hreply k body
  have htracked : ∃ env producers, callBack b r m cb = some { r₁ with env, producers } := by
    rw [callBack, if_pos ⟨hid, hne⟩]
    simp only [hcb, hresponse, Option.bind_eq_bind, Option.bind_some]
    split_ifs with htracker
    · exact publishTrackerMQMessage_granted hb hclient' _ "1"
    · exact ⟨r₁.env, r₁.producers, rfl⟩
  obtain ⟨env, producers, hcall⟩ := htracked
  rw [handleConsumeCallback]
  simp only [hm, hcall, Option.map_some]
  exact ⟨_, h, rfl, hreplied.sent, hreplied.topic, hreplied.payload, hreplied.correlation⟩

/-! ## There and back -/

/-- One message is sent since `r`, to its topic with its body, and its reply is awaited. -/
structure Requested (r r₁ : PulsarMQ σ) (m : ℕ) (h : SentMessage) : Prop where
  sent : r₁.sent = r.sent ++ [h]
  topic : h.topic = r.topicOf m
  payload : h.content.payload = (r.messages m).body
  properties : h.content.properties = preparePublishMessageProperties [] (r₁.messages m)
  answerable : Answerable r₁ m

theorem publish_requested (hb : GrantsProducers b) (huuid : ∀ env, "" ≠ (b.genLoweruuid env).2)
    (hrpc : ∀ env, (b.rpcName env).2 ≠ none) {r : PulsarMQ σ} (hclient : r.client = true) {m : ℕ}
    (hresponse : (r.messages m).response ≠ none) (htopic : "" ≠ r.topicOf m) :
    ∃ r₁ h, PulsarMQ.publish b r m = some (r₁, none) ∧ Requested r r₁ m h := by
  obtain ⟨r₁, hpublish, hsends⟩ := publish_granted hb hclient htopic
  obtain ⟨env, producers, hmessages, hsame⟩ := hsends.response
  have hanswerable := ensureResponse_answerable huuid hrpc (r := { r with env, producers }) hresponse
  rw [Answerable, ← hmessages, ← hsame] at hanswerable
  refine ⟨r₁, _, hpublish, hsends.sent, rfl, ?_, rfl, hanswerable⟩
  have htexts := ensureResponse_texts (b := b) { r with env, producers } m
  have hbody := congrFun (congrArg Texts.body htexts) m
  exact (congrArg MQPublishMessage.body (congrFun hmessages m)).trans hbody

/-- A request goes out, is consumed anywhere with the properties it was sent with, and answered by
the message made for the purpose: then the reply goes to the RPC instance of the sender, under an
identifier that a message of the sender waits for there. -/
theorem request_reply_roundTrip {τ : Type*} {b' : PulsarBroker τ} (hb : GrantsProducers b)
    (hb' : GrantsProducers b') (huuid : ∀ env, "" ≠ (b.genLoweruuid env).2)
    (hrpc : ∀ env, (b.rpcName env).2 ≠ none) {r : PulsarMQ σ} {r' : PulsarMQ τ} (hclient : r.client = true)
    (hclient' : r'.client = true) {m : ℕ} (hresponse : (r.messages m).response ≠ none)
    (htopic : "" ≠ r.topicOf m) :
    ∃ r₁ h rpc, PulsarMQ.publish b r m = some (r₁, none) ∧ Requested r r₁ m h ∧ r₁.rpc = some rpc ∧
      ∀ (msg : Message) (consumerTag : String) (cb : Callback) (k : ℕ) (body : Bytes),
        Headers.toMap msg.properties = Headers.toMap h.content.properties →
        cb (consumerMessage r'.driver consumerTag msg) =
          some (k, .newMQResponseMessage body (some (consumerMessage r'.driver consumerTag msg))) →
        ∃ r₂ h', handleConsumeCallback b' r' (some cb) msg consumerTag = some r₂ ∧
          Replied r' r₂ h' rpc.queueName (r₁.messages m).correlationID body ∧
          ∃ m', rpc.rpcCallbacks (r₁.messages m).correlationID = some m' ∧
            (m' = m ∨ (r₁.messages m').response.isSome) := by
  obtain ⟨r₁, h, hpublish, hrequested⟩ := publish_requested hb huuid hrpc hclient hresponse htopic
  obtain ⟨rpc, hsome, hreply, hid, hwaits⟩ := hrequested.answerable
  refine ⟨r₁, h, rpc, hpublish, hrequested, hsome, fun msg consumerTag cb k body hmsg hcb => ?_⟩
  rw [hrequested.properties] at hmsg
  have hcorrelation : (consumerMessage r'.driver consumerTag msg).correlationID =
      (r₁.messages m).correlationID :=
    (property_congr hmsg _).trans (property_of_field (p := (propertyCorrelationID, (r₁.messages m).correlationID))
      (by simp [protocolFields]) hid)
  have hrpcName : "" ≠ (r₁.messages m).replyTo := by
    intro hempty
    have hprefix := rpc.nonPersistent
    rw [← hreply, ← hempty] at hprefix
    exact absurd hprefix (by decide)
  have hreplyTo : (consumerMessage r'.driver consumerTag msg).replyTo = rpc.queueName :=
    ((property_congr hmsg _).trans (property_of_field (p := (propertyReplyTo, (r₁.messages m).replyTo))
      (by simp [protocolFields]) hrpcName)).trans hreply
  obtain ⟨r₂, h', hhandled, hreplied⟩ := handleConsumeCallback_replied hb' hclient' rfl
    (by rw [hcorrelation]; exact hid) (by rw [hreplyTo]; exact rpc.nonPersistent) hcb
  rw [hcorrelation, hreplyTo] at hreplied
  exact ⟨r₂, h', hhandled, hreplied, hwaits⟩

/-- A connected instance with messages that ask for a reply. -/
def askingInstance : PulsarMQ Unit :=
  { env := (), client := true, topicName := "t", messages := fun _ => { response := some 0 } }

/-- Another one, which answers what it is asked. -/
def answeringInstance : PulsarMQ Unit :=
  { env := (), client := true, topicName := "t", messages := fun _ => {} }

def answer : Callback := fun m => some (0, .newMQResponseMessage (asciiBytes "pong") (some m))

/-- A message as the consumer receives it. -/
def delivered (h : SentMessage) : Message :=
  { topic := h.topic, payload := h.content.payload, properties := h.content.properties }

theorem request_reply_roundTrip_asking : ∃ r₁ h rpc r₂ h',
    PulsarMQ.publish grantingPulsar askingInstance 0 = some (r₁, none) ∧
      Requested askingInstance r₁ 0 h ∧ r₁.rpc = some rpc ∧
      handleConsumeCallback grantingPulsar answeringInstance (some answer) (delivered h) "tag" = some r₂ ∧
      Replied answeringInstance r₂ h' rpc.queueName (r₁.messages 0).correlationID (asciiBytes "pong") ∧
      rpc.rpcCallbacks (r₁.messages 0).correlationID ≠ none := by
  have hgrants : GrantsProducers grantingPulsar := fun _ _ => rfl
  have hclient : askingInstance.client = true := rfl
  have hclient' : answeringInstance.client = true := rfl
  have hresponse : (askingInstance.messages 0).response ≠ none := Option.some_ne_none 0
  obtain ⟨r₁, h, rpc, hpublish, hrequested, hrpc, hreplies⟩ := request_reply_roundTrip hgrants hgrants
    (fun _ => (by decide : "" ≠ "uuid")) (fun _ => Option.some_ne_none "host") hclient hclient' hresponse (by decide)
  obtain ⟨r₂, h', hhandled, hreplied, m', hwaits, -⟩ :=
    hreplies (delivered h) "tag" answer 0 (asciiBytes "pong") rfl rfl
  exact ⟨r₁, h, rpc, r₂, h', hpublish, hrequested, hrpc, hhandled, hreplied, hwaits ▸ Option.some_ne_none m'⟩

end PulsarMQ
end Gocom
