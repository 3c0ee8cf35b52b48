import Gocom.GoMaps
import Gocom.KafkaPackets

/-!
# A Kafka worker

A worker sends packets and reads the topics it has subscribed to, each on a goroutine of its
own. A send that wants a reply waits on a channel that is registered under its correlation
identifier; a packet of that identifier is handed to the channel, any other packet to a
consumer. Channels are reused.

A step is what runs between two operations that block: sleeping, writing to a topic, and
sending or receiving on a channel. The writes that open a topic count as one.
-/

namespace Gocom

structure SendRequest where
  topic : String
  publishMsg : MQPublishMessage
  needReply : Bool

/-- A call of `Send`: it opens the private topic, subscribes to it, registers its channel,
writes its packet, waits, and returns the channel. -/
inductive SendPhase where
  | idle
  | opening (req : SendRequest)
  | called (req : SendRequest)
  | sending (req : SendRequest) (sendBytes : Bytes) (ch : Option ℕ)
  | waiting (req : SendRequest) (ch : ℕ)
  | received (req : SendRequest) (ch : ℕ) (packet : KafkaPacket)
  | returned (req : SendRequest) (resp : Option MQConsumerMessage)
  | failed (req : SendRequest) (err : String)

/-- The registers hold the consumer of a topic and of a method. Channels are numbered in the
order they are made. A reader is blocked on the channel it hands a packet to. What is written,
which callbacks are called and who subscribed is recorded in order. -/
structure KafkaWorker where
  privateTopic : String
  groupID : String
  contentEncoding : String := ""
  msgType : String := ""
  useOriginalContent : Bool := false
  consumerRegisters : GoMap String MQConsumerProxy := .empty
  methodRegisters : GoMap String MQConsumerProxy := .empty
  waitResponseMessage : GoMap String ℕ := .empty
  availableChannels : List ℕ := []
  openTopicChannel : GoMap String String := .empty
  channels : ℕ := 0
  senders : ℕ → SendPhase := fun _ => .idle
  readers : String → Option (ℕ × KafkaPacket) := fun _ => none
  written : List (String × Bytes) := []
  consumed : List (MQConsumerProxy × MQConsumerMessage) := []
  subscribed : List (String × MQConsumerProxy) := []

namespace KafkaWorker

variable (c : PacketCodec)

def newKafkaWorker (privateTopic groupID : String) : KafkaWorker := { privateTopic, groupID }

/-- The fields that are set once a worker is made. -/
def configured (w : KafkaWorker) (contentEncoding msgType : String) (useOriginalContent : Bool) :
    KafkaWorker :=
  { w with contentEncoding, msgType, useOriginalContent }

def setSender (w : KafkaWorker) (i : ℕ) (p : SendPhase) : KafkaWorker :=
  { w with senders := fun k => if k = i then p else w.senders k }

def setReader (w : KafkaWorker) (topic : String) (r : Option (ℕ × KafkaPacket)) : KafkaWorker :=
  { w with readers := fun k => if k = topic then r else w.readers k }

def newChannel (w : KafkaWorker) : KafkaWorker × ℕ :=
  ({ w with channels := w.channels + 1 }, w.channels)

def obtainChannel (w : KafkaWorker) : KafkaWorker × ℕ :=
  match w.availableChannels.getLast? with
  | none => w.newChannel
  | some ch => ({ w with availableChannels := w.availableChannels.dropLast }, ch)

def recycleChannel (w : KafkaWorker) (ch : ℕ) : KafkaWorker :=
  { w with availableChannels := w.availableChannels ++ [ch] }

def write (w : KafkaWorker) (topic : String) (message : Bytes) : KafkaWorker :=
  { w with written := w.written ++ [(topic, message)] }

/-- The errors of the writes are logged only. -/
def sendOpenChannel (w : KafkaWorker) (topic : String) : KafkaWorker :=
  { w with written := w.written ++ List.replicate 20 (topic, registerValue) }

def sendWorker (w : KafkaWorker) (topic : String) (message : Bytes) : KafkaWorker :=
  let w := match w.openTopicChannel topic with
    | some _ => w
    | none =>
      let w := w.sendOpenChannel topic
      { w with openTopicChannel := w.openTopicChannel.store topic "1" }
  w.write topic message

def subscribe (w : KafkaWorker) (topic : String) (consumeProxy : MQConsumerProxy) : KafkaWorker :=
  let w := { w with subscribed := w.subscribed ++ [(topic, consumeProxy)] }
  let w := if w.consumerRegisters topic = none then
    { w with consumerRegisters := w.consumerRegisters.store topic consumeProxy } else w
  let key := consumeProxy.queue ++ "-" ++ consumeProxy.consumerTag
  if w.methodRegisters key = none then
    { w with methodRegisters := w.methodRegisters.store key consumeProxy } else w

/-- Whether the private topic has to be opened and subscribed to. -/
def needsPrivateTopic (w : KafkaWorker) : Prop :=
  w.privateTopic ≠ "" ∧ w.consumerRegisters w.privateTopic = none

instance (w : KafkaWorker) : Decidable w.needsPrivateTopic := inferInstanceAs (Decidable (_ ∧ _))

/-- The packet of a send; `now` is in milliseconds. -/
def sendPacket (w : KafkaWorker) (topic : String) (publishMsg : MQPublishMessage) (now : ℕ) :
    KafkaPacket :=
  { contentType := publishMsg.contentType, contentEncoding := w.contentEncoding, sendTo := topic,
    groupId := w.groupID, correlationId := publishMsg.correlationID,
    replyTo := if w.privateTopic = "" then publishMsg.replyTo else w.privateTopic,
    timestamp := now, type := w.msgType, userId := publishMsg.userID, appId := publishMsg.appID,
    statusCode := 200, errorMessage := "success", body := publishMsg.body,
    headers := publishMsg.headers, routingKey := publishMsg.routingKey,
    consumerTag := publishMsg.routingKey, exchange := publishMsg.exchange }

/-- The packet of a reply; `now` is in milliseconds, and its time in seconds. -/
def replyPacket (w : KafkaWorker) (topic : String) (message : MQPublishMessage) (msgID : String)
    (now : ℕ) : KafkaPacket :=
  { contentType := message.contentType, contentEncoding := w.contentEncoding, sendTo := topic,
    groupId := w.groupID, correlationId := msgID, replyTo := w.privateTopic,
    timestamp := now / 1000, type := w.msgType, userId := message.userID, appId := message.appID,
    statusCode := 200, errorMessage := "success", body := message.body,
    headers := message.headers, routingKey := message.replyTo, consumerTag := message.replyTo,
    exchange := topic }

/-! ## Sending -/

def openPrivateTopic (w : KafkaWorker) (i : ℕ) (req : SendRequest) : KafkaWorker :=
  if w.needsPrivateTopic then (w.sendOpenChannel w.privateTopic).setSender i (.opening req)
  else w.setSender i (.called req)

def registerPrivateTopic (w : KafkaWorker) (i : ℕ) (req : SendRequest) : KafkaWorker :=
  (w.subscribe w.privateTopic {}).setSender i (.called req)

/-- Make the packet and register a channel for its reply. -/
def register (w : KafkaWorker) (i : ℕ) (req : SendRequest) (now : ℕ) : KafkaWorker :=
  let p := w.sendPacket req.topic req.publishMsg now
  match c.marshal w.useOriginalContent p with
  | (_, some err) => w.setSender i (.failed req err)
  | (sendBytes, none) =>
    if req.needReply then
      let (w, ch) := w.obtainChannel
      { w with waitResponseMessage := w.waitResponseMessage.store p.correlationId ch }.setSender i
        (.sending req sendBytes (some ch))
    else w.setSender i (.sending req sendBytes none)

def send (w : KafkaWorker) (i : ℕ) (req : SendRequest) (sendBytes : Bytes) (ch : Option ℕ) :
    KafkaWorker :=
  (w.sendWorker req.topic sendBytes).setSender i
    (match ch with | some ch => .waiting req ch | none => .returned req none)

def recycle (w : KafkaWorker) (i : ℕ) (req : SendRequest) (ch : ℕ) (packet : KafkaPacket) :
    KafkaWorker :=
  (w.recycleChannel ch).setSender i
    (.returned req (some (convertKafkaPacketToMQConsumerMessage packet)))

/-! ## Receiving -/

def reply (w : KafkaWorker) (topic : String) (message : MQPublishMessage) (msgID : String)
    (now : ℕ) : KafkaWorker :=
  w.sendWorker topic (c.marshal w.useOriginalContent (w.replyPacket topic message msgID now)).1

/-- The consumer of a packet: the one of its method, or else the one of its topic. -/
def consumerProxy (w : KafkaWorker) (packet : KafkaPacket) : Option MQConsumerProxy :=
  match w.methodRegisters (packet.sendTo ++ "-" ++ packet.routingKey) with
  | some consumerProxy => some consumerProxy
  | none => w.consumerRegisters packet.sendTo

/-- Call a consumer; `result` is what its callback answers, if it is called. -/
def consume (w : KafkaWorker) (consumerProxy : MQConsumerProxy) (packet : KafkaPacket)
    (result : Option MQPublishMessage) (now : ℕ) : KafkaWorker :=
  match consumerProxy.callback with
  | none => w
  | some _ =>
    let w := { w with
      consumed := w.consumed ++ [(consumerProxy, convertKafkaPacketToMQConsumerMessage packet)] }
    match result with
    | none => w
    | some result =>
      if packet.replyTo ≠ "" then reply c w packet.replyTo result packet.correlationId now else w

def onMessage (w : KafkaWorker) (topic : String) (packet : KafkaPacket)
    (result : Option MQPublishMessage) (now : ℕ) : KafkaWorker :=
  match w.waitResponseMessage packet.correlationId with
  | some ch =>
    { w with waitResponseMessage := w.waitResponseMessage.delete packet.correlationId }.setReader
      topic (some (ch, packet))
  | none =>
    match w.consumerProxy packet with
    | none => w
    | some consumerProxy => consume c w consumerProxy packet result now

/-- The packet that data stands for. -/
def packetOf (w : KafkaWorker) (data : Bytes) : Option KafkaPacket :=
  match c.unmarshal w.useOriginalContent data with
  | .error _ => none
  | .ok p => some (c.extractRoutingKey p)

def bindToOnMessage (w : KafkaWorker) (topic : String) (data : Bytes)
    (result : Option MQPublishMessage) (now : ℕ) : KafkaWorker :=
  if RegistersPrivate data then w
  else
    match packetOf c w data with
    | none => w
    | some p => onMessage c w topic p result now

/-! ## Steps -/

inductive Event where
  | call (i : ℕ) (req : SendRequest)
  | opened (i : ℕ)
  | register (i : ℕ) (now : ℕ)
  | send (i : ℕ)
  /-- The reader of a topic passes its packet to a waiting send. -/
  | handOver (topic : String) (i : ℕ)
  | recycle (i : ℕ)
  | subscribe (topic : String) (consumeProxy : MQConsumerProxy)
  /-- The reader of a topic reads data. -/
  | read (topic : String) (data : Bytes) (result : Option MQPublishMessage) (now : ℕ)

def step (w : KafkaWorker) : Event → Option KafkaWorker
  | .call i req =>
    match w.senders i with
    | .idle => some (w.openPrivateTopic i req)
    | _ => none
  | .opened i =>
    match w.senders i with
    | .opening req => some (w.registerPrivateTopic i req)
    | _ => none
  | .register i now =>
    match w.senders i with
    | .called req => some (register c w i req now)
    | _ => none
  | .send i =>
    match w.senders i with
    | .sending req sendBytes ch => some (w.send i req sendBytes ch)
    | _ => none
  | .handOver topic i =>
    match w.readers topic, w.senders i with
    | some (ch, packet), .waiting req ch' =>
      if ch = ch' then some ((w.setReader topic none).setSender i (.received req ch packet)) else none
    | _, _ => none
  | .recycle i =>
    match w.senders i with
    | .received req ch packet => some (w.recycle i req ch packet)
    | _ => none
  | .subscribe topic consumeProxy => some (w.subscribe topic consumeProxy)
  | .read topic data result now =>
    if w.consumerRegisters topic ≠ none ∧ w.readers topic = none then
      some (bindToOnMessage c w topic data result now)
    else none

variable {c} {w v : KafkaWorker}

theorem step_call {i : ℕ} {req : SendRequest} (hv : step c w (.call i req) = some v) :
    w.senders i = .idle ∧ v = w.openPrivateTopic i req := by
  cases hi : w.senders i <;> simp only [step, hi, reduceCtorEq] at hv
  exact ⟨rfl, (Option.some.inj hv).symm⟩

theorem step_opened {i : ℕ} (hv : step c w (.opened i) = some v) :
    ∃ req, w.senders i = .opening req ∧ v = w.registerPrivateTopic i req := by
  cases hi : w.senders i <;> simp only [step, hi, reduceCtorEq] at hv
  exact ⟨_, rfl, (Option.some.inj hv).symm⟩

theorem step_register {i now : ℕ} (hv : step c w (.register i now) = some v) :
    ∃ req, w.senders i = .called req ∧ v = register c w i req now := by
  cases hi : w.senders i <;> simp only [step, hi, reduceCtorEq] at hv
  exact ⟨_, rfl, (Option.some.inj hv).symm⟩

theorem step_send {i : ℕ} (hv : step c w (.send i) = some v) :
    ∃ req sendBytes ch, w.senders i = .sending req sendBytes ch ∧ v = w.send i req sendBytes ch := by
  cases hi : w.senders i <;> simp only [step, hi, reduceCtorEq] at hv
  exact ⟨_, _, _, rfl, (Option.some.inj hv).symm⟩

theorem step_handOver {topic : String} {i : ℕ} (hv : step c w (.handOver topic i) = some v) :
    ∃ req ch packet, w.readers topic = some (ch, packet) ∧ w.senders i = .waiting req ch ∧
      v = (w.setReader topic none).setSender i (.received req ch packet) := by
  cases hread : w.readers topic with
  | none => simp only [step, hread, reduceCtorEq] at hv
  | some r =>
    cases hi : w.senders i <;> simp only [step, hread, hi, reduceCtorEq] at hv
    split_ifs at hv with hch
    exact ⟨_, _, _, rfl, by rw [hch], (Option.some.inj hv).symm⟩

theorem step_recycle {i : ℕ} (hv : step c w (.recycle i) = some v) :
    ∃ req ch packet, w.senders i = .received req ch packet ∧ v = w.recycle i req ch packet := by
  cases hi : w.senders i <;> simp only [step, hi, reduceCtorEq] at hv
  exact ⟨_, _, _, rfl, (Option.some.inj hv).symm⟩

theorem step_read {topic : String} {data : Bytes} {result : Option MQPublishMessage} {now : ℕ}
    (hv : step c w (.read topic data result now) = some v) :
    w.readers topic = none ∧ v = bindToOnMessage c w topic data result now := by
  simp only [step] at hv
  split_ifs at hv with hread
  exact ⟨hread.2, (Option.some.inj hv).symm⟩

end KafkaWorker
end Gocom
