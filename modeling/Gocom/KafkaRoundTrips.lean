import Gocom.HeaderMaps
import Gocom.KafkaWorker

/-!
# A message through a topic

Sending and replying fill a packet each in its own way, and one function reads both. Neither copies
the message identifier, and sending gives its time in milliseconds where seconds are read.
-/

namespace Gocom
namespace KafkaWorker

variable (c : PacketCodec)

/-- A call of `Send`, from making its packet to writing it. -/
def sendMessage (w : KafkaWorker) (i : ℕ) (req : SendRequest) (now : ℕ) : KafkaWorker :=
  let w := register c w i req now
  match w.senders i with
  | .sending req sendBytes ch => w.send i req sendBytes ch
  | _ => w

/-- The message made of what was written last. -/
def received (w : KafkaWorker) : Option MQConsumerMessage :=
  match w.written.getLast? with
  | none => none
  | some (_, data) => (packetOf c w data).map convertKafkaPacketToMQConsumerMessage

/-- The consumer's message has what the published one had, and the time of sending, which is given
in milliseconds, to the second. -/
structure Carries (pm : MQPublishMessage) (correlationID : String) (now : ℕ)
    (msg : MQConsumerMessage) : Prop where
  correlationID : msg.correlationID = correlationID
  messageID : msg.messageID = pm.messageID
  appID : msg.appID = pm.appID
  userID : msg.userID = pm.userID
  contentType : msg.contentType = pm.contentType
  body : msg.body = pm.body
  headers : Headers.toMap msg.headers = Headers.toMap pm.headers
  timestamp : msg.timestamp = (now / 1000 : ℕ)

def RoundTrips (pm : MQPublishMessage) (correlationID : String) (now : ℕ)
    (msg : Option MQConsumerMessage) : Prop := ∃ m, msg = some m ∧ Carries pm correlationID now m

/-- The codec gives a packet back. -/
def Lossless (useOriginalContent : Bool) (p : KafkaPacket) : Prop :=
  (c.marshal useOriginalContent p).2 = none ∧
    c.unmarshal useOriginalContent (c.marshal useOriginalContent p).1 = .ok p

/-! ## What is written is read -/

theorem sendWorker_written (w : KafkaWorker) (topic : String) (message : Bytes) :
    (w.sendWorker topic message).written.getLast? = some (topic, message) ∧
      (w.sendWorker topic message).useOriginalContent = w.useOriginalContent := by
  rw [sendWorker]
  cases w.openTopicChannel topic with
  | none => exact ⟨List.getLast?_concat, rfl⟩
  | some _ => exact ⟨List.getLast?_concat, rfl⟩

theorem sendMessage_written (w : KafkaWorker) (i : ℕ) (req : SendRequest) (now : ℕ)
    (hmarshal :
      (c.marshal w.useOriginalContent (w.sendPacket req.topic req.publishMsg now)).2 = none) :
    (sendMessage c w i req now).written.getLast? = some (req.topic,
        (c.marshal w.useOriginalContent (w.sendPacket req.topic req.publishMsg now)).1) ∧
      (sendMessage c w i req now).useOriginalContent = w.useOriginalContent := by
  rw [sendMessage, register]
  generalize c.marshal w.useOriginalContent (w.sendPacket req.topic req.publishMsg now) = m at *
  obtain ⟨data, err⟩ := m
  dsimp only at hmarshal ⊢
  subst hmarshal
  cases hneed : req.needReply with
  | false =>
    simp only [setSender, send, if_true, Bool.false_eq_true, if_false]
    exact sendWorker_written _ req.topic data
  | true =>
    cases hch : w.availableChannels.getLast? <;>
      simp only [obtainChannel, newChannel, hch, setSender, send, if_true] <;>
      exact sendWorker_written _ req.topic data

/-- Only the routing key of a packet may come from its body. -/
theorem extractRoutingKey_eq (p : KafkaPacket) :
    ∃ routingKey, c.extractRoutingKey p = { p with routingKey } := by
  rw [PacketCodec.extractRoutingKey]
  split_ifs
  · exact ⟨p.routingKey, rfl⟩
  · cases c.routingParams p.body with
    | error _ => exact ⟨p.routingKey, rfl⟩
    | ok params =>
      dsimp only
      split_ifs
      · exact ⟨_, rfl⟩
      · exact ⟨_, rfl⟩
      · exact ⟨p.routingKey, rfl⟩

theorem received_eq {w : KafkaWorker} {topic : String} {u : Bool} {p : KafkaPacket}
    (hlossless : Lossless c u p)
    (hwritten : w.written.getLast? = some (topic, (c.marshal u p).1))
    (hcontent : w.useOriginalContent = u) :
    received c w = some (convertKafkaPacketToMQConsumerMessage (c.extractRoutingKey p)) := by
  rw [received, hwritten]
  dsimp only
  rw [packetOf, hcontent, hlossless.2]
  rfl

/-! ## What is read is what was sent -/

/-- A packet that copies the message carries it if its identifier and its time are right. -/
theorem carries_iff {p : KafkaPacket} {pm : MQPublishMessage} {correlationID : String} {now : ℕ}
    (hcorrelation : p.correlationId = correlationID) (happ : p.appId = pm.appID)
    (huser : p.userId = pm.userID) (htype : p.contentType = pm.contentType)
    (hbody : p.body = pm.body) (hheaders : p.headers = pm.headers) :
    Carries pm correlationID now (convertKafkaPacketToMQConsumerMessage (c.extractRoutingKey p)) ↔
      p.messageId = pm.messageID ∧ p.timestamp = now / 1000 := by
  obtain ⟨routingKey, hkey⟩ := extractRoutingKey_eq c p
  rw [hkey]
  refine ⟨fun h => ⟨h.messageID, Int.ofNat_inj.mp h.timestamp⟩, fun ⟨hid, htime⟩ => ?_⟩
  exact ⟨hcorrelation, hid, happ, huser, htype, hbody,
    (Headers.toMap_copy p.headers).trans (congrArg _ hheaders), congrArg _ htime⟩

theorem roundTrips_some {pm : MQPublishMessage} {correlationID : String} {now : ℕ}
    {msg : MQConsumerMessage} :
    RoundTrips pm correlationID now (some msg) ↔ Carries pm correlationID now msg := by
  refine ⟨fun ⟨m, hm, h⟩ => ?_, fun h => ⟨msg, rfl, h⟩⟩
  cases hm
  exact h

/-- Replying works for messages without an identifier. Sending gives the right time at no time but
the first millisecond. -/
theorem roundTrips_iff (w : KafkaWorker) (i : ℕ) (topic : String) (pm : MQPublishMessage)
    (needReply : Bool) (msgID : String) (now : ℕ)
    (hsend : Lossless c w.useOriginalContent (w.sendPacket topic pm now))
    (hreply : Lossless c w.useOriginalContent (w.replyPacket topic pm msgID now)) :
    (RoundTrips pm pm.correlationID now
        (received c (sendMessage c w i ⟨topic, pm, needReply⟩ now)) ↔ pm.messageID = "" ∧ now = 0) ∧
      (RoundTrips pm msgID now (received c (reply c w topic pm msgID now)) ↔
        pm.messageID = "") := by
  obtain ⟨hsent, hcontent⟩ := sendMessage_written c w i ⟨topic, pm, needReply⟩ now hsend.1
  obtain ⟨hreplied, hcontent'⟩ := sendWorker_written w topic
    (c.marshal w.useOriginalContent (w.replyPacket topic pm msgID now)).1
  constructor
  · have hcarries : Carries pm pm.correlationID now (convertKafkaPacketToMQConsumerMessage
        (c.extractRoutingKey (w.sendPacket topic pm now))) ↔
          "" = pm.messageID ∧ now = now / 1000 := carries_iff c rfl rfl rfl rfl rfl rfl
    rw [received_eq c hsend hsent hcontent, roundTrips_some, hcarries]
    refine and_congr eq_comm ?_
    omega
  · have hcarries : Carries pm msgID now (convertKafkaPacketToMQConsumerMessage
        (c.extractRoutingKey (w.replyPacket topic pm msgID now))) ↔
          "" = pm.messageID ∧ now / 1000 = now / 1000 := carries_iff c rfl rfl rfl rfl rfl rfl
    rw [reply, received_eq c hreply hreplied hcontent', roundTrips_some, hcarries]
    exact ⟨fun h => h.1.symm, fun h => ⟨h.symm, rfl⟩⟩

def identifiedMessage : MQPublishMessage :=
  { correlationID := "c1", messageID := "m1", appID := "app", body := [123, 125],
    headers := [("Lang", "en")] }

def plainWorker : KafkaWorker := newKafkaWorker "rpc-1" "group"

/-- A codec for the two packets of the message in November 2023. -/
def identifiedCodec : PacketCodec :=
  tableCodec [plainWorker.sendPacket "orders" identifiedMessage 1700000000000,
    plainWorker.replyPacket "orders" identifiedMessage "c9" 1700000000000]

theorem identifiedCodec_lossless : Lossless identifiedCodec false
      (plainWorker.sendPacket "orders" identifiedMessage 1700000000000) ∧
    Lossless identifiedCodec false
      (plainWorker.replyPacket "orders" identifiedMessage "c9" 1700000000000) := by
  refine ⟨⟨rfl, ?_⟩, rfl, ?_⟩ <;> decide

theorem roundTrips_iff_identified :
    (RoundTrips identifiedMessage "c1" 1700000000000 (received identifiedCodec
        (sendMessage identifiedCodec plainWorker 0 ⟨"orders", identifiedMessage, true⟩
          1700000000000)) ↔ "m1" = "" ∧ 1700000000000 = 0) ∧
      (RoundTrips identifiedMessage "c9" 1700000000000 (received identifiedCodec
        (reply identifiedCodec plainWorker "orders" identifiedMessage "c9" 1700000000000)) ↔
          "m1" = "") :=
  roundTrips_iff identifiedCodec plainWorker 0 "orders" identifiedMessage true "c9" 1700000000000
    identifiedCodec_lossless.1 identifiedCodec_lossless.2

/-- Either way the identifier is lost, and what was sent seems to come from the year 55840. -/
theorem identifiedMessage_altered :
    (received identifiedCodec (sendMessage identifiedCodec plainWorker 0
        ⟨"orders", identifiedMessage, true⟩ 1700000000000)).map
          (fun m => (m.messageID, m.timestamp)) = some ("", 1700000000000) ∧
      ¬ RoundTrips identifiedMessage "c1" 1700000000000 (received identifiedCodec
        (sendMessage identifiedCodec plainWorker 0 ⟨"orders", identifiedMessage, true⟩
          1700000000000)) ∧
      ¬ RoundTrips identifiedMessage "c9" 1700000000000 (received identifiedCodec
        (reply identifiedCodec plainWorker "orders" identifiedMessage "c9" 1700000000000)) := by
  have hsent : (received identifiedCodec (sendMessage identifiedCodec plainWorker 0
      ⟨"orders", identifiedMessage, true⟩ 1700000000000)).map
        (fun m => (m.messageID, m.timestamp)) = some ("", 1700000000000) := by decide
  have hreplied : (received identifiedCodec (reply identifiedCodec plainWorker "orders"
      identifiedMessage "c9" 1700000000000)).map MQConsumerMessage.messageID = some "" := by
    decide
  refine ⟨hsent, ?_, ?_⟩
  · rintro ⟨m, hm, h⟩
    rw [hm, Option.map_some, h.messageID] at hsent
    exact absurd hsent (by simp [identifiedMessage])
  · rintro ⟨m, hm, h⟩
    rw [hm, Option.map_some, h.messageID] at hreplied
    exact absurd hreplied (by decide)

end KafkaWorker
end Gocom
