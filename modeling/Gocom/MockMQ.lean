import Gocom.GoMaps
import Gocom.MessageEnvelopes

/-!
# The mock queue

Topics are queues in memory. Publishing on a topic calls its subscribers in order; what a consumer
answers is published on the reply topic of its message before the next subscriber is called. The
callbacks are methods bound to a worker, and a queue takes two of one method for the same.

A step is what happens between two calls of a consumer's callback, which may itself use the queue
before it returns. What was subscribed, published and received is recorded in order.
-/

namespace Gocom

/-- A method bound to the worker of a name. -/
inductive MockCallback where
  | bindToOnMessage (name : String)
  | bindToReplyMessage (name : String)
  deriving DecidableEq

/-- What `reflect` knows of a bound method: the code, not the worker. -/
inductive MockMethod where
  | onMessage
  | replyMessage
  deriving DecidableEq

def MockCallback.pointer : MockCallback → MockMethod
  | .bindToOnMessage _ => .onMessage
  | .bindToReplyMessage _ => .replyMessage

structure MockQueue where
  topic : String
  messages : List MQPublishMessage := []
  subscribes : List MockCallback := []

/-- A call of `mockDoCallback`. -/
structure MockCall where
  callback : MockCallback
  msg : MQConsumerMessage

namespace MockQueue

def consumerMessage (q : MockQueue) (now : ℤ) (msg : MQPublishMessage) : MQConsumerMessage :=
  { MQConsumerMessage.newConsumerMessageFromPublishMessage msg now with consumerTag := q.topic }

/-- The queue with a subscriber, and the calls for the messages it had stored. -/
def subscribe (q : MockQueue) (now : ℤ) (callback : MockCallback) : MockQueue × List MockCall :=
  if q.subscribes.any fun cb => cb.pointer = callback.pointer then (q, [])
  else ({ q with subscribes := q.subscribes ++ [callback] },
    q.messages.map fun msg => ⟨callback, q.consumerMessage now msg⟩)

/-- The queue after a message, and the calls of its subscribers. -/
def publish (q : MockQueue) (now : ℤ) (msg : MQPublishMessage) : MockQueue × List MockCall :=
  if q.subscribes.length < 1 then ({ q with messages := q.messages ++ [msg] }, [])
  else (q, q.subscribes.map fun cb => ⟨cb, q.consumerMessage now msg⟩)

end MockQueue

structure MockMQ where
  consumerRegisters : GoMap String MQConsumerProxy := .empty
  waitingResponseMessages : GoMap String ℕ := .empty
  waitingResponseTopic : String

/-- What is recorded: that a worker waits for replies on a topic, that one was asked to subscribe a
consumer, that a message was published and that the callback of a consumer was called. -/
inductive MockOccurrence where
  | opened (topic : String)
  | subscribed (topic name : String) (consumeProxy : MQConsumerProxy)
  | published (topic : String) (msg : MQPublishMessage)
  | received (name : String) (consumeProxy : MQConsumerProxy) (msg : MQConsumerMessage)

/-- A call that is to be made, or one of a consumer that has not returned. -/
inductive MockFrame where
  | call (c : MockCall)
  | running (msg : MQConsumerMessage)

/-- The manager of the topics, the workers by name, and the calls that are under way, the innermost
first. Waiting channels are numbered in the order they are made. -/
structure MockSystem where
  topicQueues : GoMap String MockQueue := .empty
  mockInstances : GoMap String MockMQ := .empty
  waiters : ℕ := 0
  answers : List (ℕ × MQConsumerMessage) := []
  frames : List MockFrame := []
  history : List MockOccurrence := []

namespace MockSystem

def record (s : MockSystem) (o : MockOccurrence) : MockSystem :=
  { s with history := s.history ++ [o] }

def setInstance (s : MockSystem) (name : String) (worker : MockMQ) : MockSystem :=
  { s with mockInstances := s.mockInstances.store name worker }

/-! ## The manager -/

def managerSubscribe (s : MockSystem) (topic : String) (now : ℤ) (callback : MockCallback) :
    MockSystem × List MockCall :=
  let q := (s.topicQueues topic).getD { topic }
  let (q, calls) := q.subscribe now callback
  ({ s with topicQueues := s.topicQueues.store topic q }, calls)

/-- A message on a topic that nobody has subscribed to is dropped. -/
def managerPublish (s : MockSystem) (topic : String) (now : ℤ) (msg : MQPublishMessage) :
    MockSystem :=
  let s := s.record (.published topic msg)
  match s.topicQueues topic with
  | none => s
  | some q =>
    let (q, calls) := q.publish now msg
    { s with topicQueues := s.topicQueues.store topic q, frames := calls.map .call ++ s.frames }

/-! ## Workers -/

/-- A new worker subscribes to a topic of its own for replies. -/
def initMockMQ (s : MockSystem) (name uuid : String) (now : ℤ) : MockSystem :=
  match s.mockInstances name with
  | some _ => s
  | none =>
    let topic := "rpc-" ++ uuid
    let (s, calls) := s.managerSubscribe topic now (.bindToReplyMessage name)
    let s := (s.record (.opened topic)).setInstance name { waitingResponseTopic := topic }
    { s with frames := calls.map .call ++ s.frames }

/-- A stored message would call `bindToOnMessage`, which waits for the lock that `Subscribe` holds,
so there is no next step. -/
def subscribe (s : MockSystem) (name topic : String) (consumeProxy : MQConsumerProxy) (now : ℤ) :
    Option MockSystem :=
  match s.mockInstances name with
  | none => none
  | some worker =>
    let s := s.record (.subscribed topic name consumeProxy)
    match worker.consumerRegisters topic with
    | some _ => some s
    | none =>
      match s.managerSubscribe topic now (.bindToOnMessage name) with
      | (_, _ :: _) => none
      | (s, []) => some (s.setInstance name
          { worker with consumerRegisters := worker.consumerRegisters.store topic consumeProxy })

/-- Make a message answerable and wait for its answer. -/
def prepareRepliablePubilshMessage (s : MockSystem) (name : String) (worker : MockMQ)
    (pm : MQPublishMessage) (uuid : String) : MockSystem × MQPublishMessage :=
  let correlationID := if "" = pm.correlationID then uuid else pm.correlationID
  let worker := { worker with
    waitingResponseMessages := worker.waitingResponseMessages.store correlationID s.waiters }
  ({ s with waiters := s.waiters + 1 }.setInstance name worker,
    { pm with replyTo := worker.waitingResponseTopic, correlationID })

/-- `Send` up to the wait for the answer. -/
def send (s : MockSystem) (name topic : String) (pm : MQPublishMessage) (withReply : Bool)
    (uuid : String) (now : ℤ) : Option MockSystem :=
  match s.mockInstances name with
  | none => none
  | some worker =>
    if withReply then
      let (s, pm) := s.prepareRepliablePubilshMessage name worker pm uuid
      some (s.managerPublish topic now pm)
    else some (s.managerPublish topic now pm)

/-! ## Calls -/

/-- The consumer of a message's topic is called; a consumer without callback panics. -/
def bindToOnMessage (s : MockSystem) (name : String) (msg : MQConsumerMessage) :
    Option MockSystem :=
  match (s.mockInstances name).bind fun worker => worker.consumerRegisters msg.consumerTag with
  | none => some s
  | some consumer =>
    match consumer.callback with
    | none => none
    | some _ =>
      some { s.record (.received name consumer msg) with frames := .running msg :: s.frames }

/-- The channel that waits for the message gets it. -/
def bindToReplyMessage (s : MockSystem) (name : String) (msg : MQConsumerMessage) : MockSystem :=
  match s.mockInstances name with
  | none => s
  | some worker =>
    match worker.waitingResponseMessages msg.correlationID with
    | none => s
    | some waiter =>
      { s.setInstance name { worker with waitingResponseMessages :=
          worker.waitingResponseMessages.delete msg.correlationID } with
        answers := s.answers ++ [(waiter, msg)] }

/-- Only the callback of a consumer answers anything. -/
def mockDoCallback (s : MockSystem) (c : MockCall) : Option MockSystem :=
  match c.callback with
  | .bindToOnMessage name => s.bindToOnMessage name c.msg
  | .bindToReplyMessage name => some (s.bindToReplyMessage name c.msg)

/-- What happens once a consumer has answered. -/
def afterCallback (s : MockSystem) (msg : MQConsumerMessage) (resp : Option MQPublishMessage)
    (now : ℤ) : MockSystem :=
  match resp with
  | none => s
  | some resp => if "" ≠ msg.replyTo then s.managerPublish msg.replyTo now resp else s

/-! ## Steps -/

/-- Nothing is to be called before the next operation: none is under way, or the callback of a
consumer is running, which may use the queue. -/
def idle (s : MockSystem) : Bool :=
  match s.frames with
  | .call _ :: _ => false
  | _ => true

inductive Event where
  | init (name uuid : String) (now : ℤ)
  | subscribe (name topic : String) (consumeProxy : MQConsumerProxy) (now : ℤ)
  | send (name topic : String) (pm : MQPublishMessage) (withReply : Bool) (uuid : String) (now : ℤ)
  | call
  | answer (resp : Option MQPublishMessage) (now : ℤ)

def step (s : MockSystem) : Event → Option MockSystem
  | .init name uuid now => if s.idle then some (s.initMockMQ name uuid now) else none
  | .subscribe name topic consumeProxy now =>
    if s.idle then s.subscribe name topic consumeProxy now else none
  | .send name topic pm withReply uuid now =>
    if s.idle then s.send name topic pm withReply uuid now else none
  | .call =>
    match s.frames with
    | .call c :: frames => { s with frames }.mockDoCallback c
    | _ => none
  | .answer resp now =>
    match s.frames with
    | .running msg :: frames => some ({ s with frames }.afterCallback msg resp now)
    | _ => none

end MockSystem
end Gocom
