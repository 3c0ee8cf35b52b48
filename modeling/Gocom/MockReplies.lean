import Gocom.MockDelivery

/-!
# Queries over the mock queue

A query is sent with the worker's reply topic and a correlation identifier, and waits on a channel.
The consumer answers with `NewMQResponseMessage`, which copies the fields of the message it got, and
the answer reaches the worker as a message on its reply topic. Every field comes back but the
application, in whose place the message identifier is copied.
-/

namespace Gocom
namespace MockSystem

open Runs

/-! ## Reply topics -/

/-- The topic a new worker takes for replies is not in use, as its identifier is random. -/
def FreshReplies (s : MockSystem) : Event → Prop
  | .init name uuid _ => s.mockInstances name = none → s.topicQueues ("rpc-" ++ uuid) = none
  | _ => True

/-- Only the worker of a reply topic subscribes there for replies, and it was the first to. -/
structure Replies (s : MockSystem) : Prop where
  first : ∀ name worker, s.mockInstances name = some worker →
    worker.waitingResponseTopic ≠ "" ∧ ∃ q, s.topicQueues worker.waitingResponseTopic = some q ∧
      q.subscribes.head? = some (.bindToReplyMessage name)
  own : ∀ topic q name, s.topicQueues topic = some q →
    .bindToReplyMessage name ∈ q.subscribes →
      ∃ worker, s.mockInstances name = some worker ∧ worker.waitingResponseTopic = topic

theorem replies_empty : Replies {} where
  first _ _ h := by cases h
  own _ _ _ h := by cases h

/-- The topics and the reply topics of the workers are the same. -/
structure SameTopics (s s' : MockSystem) : Prop where
  queues : s'.topicQueues = s.topicQueues
  replies : ∀ name, (s'.mockInstances name).map MockMQ.waitingResponseTopic =
    (s.mockInstances name).map MockMQ.waitingResponseTopic

theorem SameTopics.refl (s : MockSystem) : SameTopics s s := ⟨rfl, fun _ => rfl⟩

theorem SameTopics.trans {s s' s'' : MockSystem} (h : SameTopics s s') (h' : SameTopics s' s'') :
    SameTopics s s'' :=
  ⟨h'.queues.trans h.queues, fun name => (h'.replies name).trans (h.replies name)⟩

theorem Replies.of_same {s s' : MockSystem} (hs : Replies s) (h : SameTopics s s') : Replies s' where
  first name worker' hw := by
    have hsame := h.replies name
    rw [hw, Option.map_some] at hsame
    obtain ⟨worker, hworker, htopic⟩ := Option.map_eq_some_iff.mp hsame.symm
    rw [h.queues, ← htopic]
    exact hs.first name worker hworker
  own topic q name hq hin := by
    rw [h.queues] at hq
    obtain ⟨worker, hworker, htopic⟩ := hs.own topic q name hq hin
    have hsame := h.replies name
    rw [hworker, Option.map_some, htopic] at hsame
    exact Option.map_eq_some_iff.mp hsame

/-- A worker that keeps its reply topic. -/
theorem sameTopics_setInstance {s : MockSystem} {name : String} {worker worker' : MockMQ}
    (hworker : s.mockInstances name = some worker)
    (hsame : worker'.waitingResponseTopic = worker.waitingResponseTopic) :
    SameTopics s (s.setInstance name worker') := by
  refine ⟨rfl, fun n => ?_⟩
  rw [setInstance]
  dsimp only
  rw [GoMap.store_apply]
  split_ifs with hn
  · rw [hn, hworker, Option.map_some, Option.map_some, hsame]
  · rfl

/-- Publishing leaves the queues as they are: none of them stores anything. -/
theorem Registry.sameTopics_managerPublish {s : MockSystem} (hs : Registry s) (topic : String)
    (now : ℤ) (msg : MQPublishMessage) : SameTopics s (s.managerPublish topic now msg) := by
  cases hq : s.topicQueues topic with
  | none =>
    rw [managerPublish_of_none hq]
    exact ⟨rfl, fun _ => rfl⟩
  | some q =>
    rw [managerPublish_of_some hq (hs.queues topic q hq).subscribes]
    exact ⟨rfl, fun _ => rfl⟩

/-- A consumer is subscribed behind the subscribers that a topic has. -/
theorem Replies.managerSubscribe {s : MockSystem} (hs : Replies s) (hr : Registry s)
    (topic : String) (now : ℤ) (n : String) :
    Replies (s.managerSubscribe topic now (.bindToOnMessage n)).1 := by
  rw [managerSubscribe_of_messages (hr.queue topic).2.1]
  refine ⟨fun name worker hw => ?_, fun t q name hq hin => ?_⟩
  · obtain ⟨hne, q, hq, hhead⟩ := hs.first name worker hw
    refine ⟨hne, ?_⟩
    by_cases ht : worker.waitingResponseTopic = topic
    · refine ⟨_, by rw [ht]; exact GoMap.store_self _ _ _, ?_⟩
      rw [← ht, hq, Option.getD_some, withSubscriber]
      split_ifs
      · exact hhead
      · rw [List.head?_append, hhead]
        rfl
    · exact ⟨q, (GoMap.store_of_ne ht _ _).trans hq, hhead⟩
  · obtain ⟨rfl, rfl⟩ | ⟨-, hold⟩ := GoMap.of_store_eq_some hq
    · have hin' : .bindToReplyMessage name ∈
          ((s.topicQueues t).getD { topic := t }).subscribes := by
        rw [withSubscriber] at hin
        split_ifs at hin
        · exact hin
        · obtain hin | hin := List.mem_append.mp hin
          · exact hin
          · cases List.mem_singleton.mp hin
      cases hold : s.topicQueues t with
      | none =>
        rw [hold, Option.getD_none] at hin'
        cases hin'
      | some q =>
        rw [hold, Option.getD_some] at hin'
        exact hs.own t q name hold hin'
    · exact hs.own t q name hold hin

/-- A new worker is the only subscriber of its reply topic. -/
theorem Replies.initMockMQ {s : MockSystem} (hs : Replies s) (name uuid : String) (now : ℤ)
    (hfresh : s.mockInstances name = none → s.topicQueues ("rpc-" ++ uuid) = none) :
    Replies (s.initMockMQ name uuid now) := by
  rw [MockSystem.initMockMQ]
  cases hname : s.mockInstances name with
  | some worker => exact hs
  | none =>
    have hnone := hfresh hname
    dsimp only
    rw [managerSubscribe_of_messages (by rw [hnone]; rfl), hnone]
    refine ⟨fun n worker hw => ?_, fun t q n hq hin => ?_⟩
    · obtain ⟨rfl, rfl⟩ | ⟨-, hold⟩ := GoMap.of_store_eq_some hw
      · exact ⟨by simp, _, GoMap.store_self _ _ _, rfl⟩
      · obtain ⟨hne, q, hq, hhead⟩ := hs.first n worker hold
        refine ⟨hne, q, (GoMap.store_of_ne (fun ht => ?_) _ _).trans hq, hhead⟩
        rw [ht, hnone] at hq
        cases hq
    · obtain ⟨rfl, rfl⟩ | ⟨-, hold⟩ := GoMap.of_store_eq_some hq
      · cases List.mem_singleton.mp hin
        exact ⟨_, GoMap.store_self _ _ _, rfl⟩
      · obtain ⟨worker, hworker, htopic⟩ := hs.own t q n hold hin
        have hne : n ≠ name := fun hn => by
          rw [hn, hname] at hworker
          cases hworker
        exact ⟨worker, (GoMap.store_of_ne hne _ _).trans hworker, htopic⟩

theorem Replies.subscribe {s s' : MockSystem} (hs : Replies s) (hr : Registry s)
    {name topic : String} {consumeProxy : MQConsumerProxy} {now : ℤ}
    (h : s.subscribe name topic consumeProxy now = some s') : Replies s' := by
  rw [MockSystem.subscribe] at h
  cases hworker : s.mockInstances name with
  | none =>
    rw [hworker] at h
    cases h
  | some worker =>
    rw [hworker] at h
    dsimp only at h
    cases hregister : worker.consumerRegisters topic with
    | some p =>
      rw [hregister] at h
      cases h
      exact hs.of_same ⟨rfl, fun _ => rfl⟩
    | none =>
      have hsub := hs.managerSubscribe hr topic now name
      rw [managerSubscribe_of_messages (hr.queue topic).2.1] at hsub
      have hmessages :
          (((s.record (.subscribed topic name consumeProxy)).topicQueues topic).getD
            { topic }).messages = [] := (hr.queue topic).2.1
      rw [hregister] at h
      dsimp only at h
      rw [managerSubscribe_of_messages hmessages] at h
      cases h
      refine hsub.of_same (SameTopics.trans ?_ (sameTopics_setInstance hworker rfl))
      exact ⟨rfl, fun _ => rfl⟩

/-! ## Runs -/

theorem Invariant.sameTopics_send {s s' : MockSystem} (hs : Invariant s) {name topic : String}
    {pm : MQPublishMessage} {withReply : Bool} {uuid : String} {now : ℤ}
    (h : s.send name topic pm withReply uuid now = some s') : SameTopics s s' := by
  rw [MockSystem.send] at h
  cases hworker : s.mockInstances name with
  | none =>
    rw [hworker] at h
    cases h
  | some worker =>
    rw [hworker] at h
    cases withReply with
    | false =>
      cases h
      exact hs.toRegistry.sameTopics_managerPublish topic now pm
    | true =>
      cases h
      have hwaiter : SameTopics s { s with waiters := s.waiters + 1 } := ⟨rfl, fun _ => rfl⟩
      have hprepared : SameTopics s (s.prepareRepliablePubilshMessage name worker pm uuid).1 :=
        hwaiter.trans (sameTopics_setInstance hworker rfl)
      have hinvariant : Invariant (s.prepareRepliablePubilshMessage name worker pm uuid).1 :=
        hs.of_same rfl rfl rfl (registered_waiting hworker rfl)
      exact hprepared.trans (hinvariant.toRegistry.sameTopics_managerPublish topic now _)

theorem sameTopics_mockDoCallback {s s' : MockSystem} {c : MockCall}
    (h : s.mockDoCallback c = some s') : SameTopics s s' := by
  obtain ⟨callback, msg⟩ := c
  cases callback with
  | bindToOnMessage name =>
    rw [mockDoCallback] at h
    dsimp only at h
    rw [MockSystem.bindToOnMessage] at h
    split at h
    · cases h
      exact .refl s
    · split at h
      · cases h
      · cases h
        exact ⟨rfl, fun _ => rfl⟩
  | bindToReplyMessage name =>
    cases h
    rw [MockSystem.bindToReplyMessage]
    cases hworker : s.mockInstances name with
    | none => exact .refl s
    | some worker =>
      dsimp only
      cases worker.waitingResponseMessages msg.correlationID with
      | none => exact .refl s
      | some waiter =>
        refine SameTopics.trans (sameTopics_setInstance hworker ?_) ⟨rfl, fun _ => rfl⟩
        rfl

theorem Replies.step {s s' : MockSystem} (hs : Replies s) (hi : Invariant s) {e : Event}
    (hfresh : FreshReplies s e) (h : step s e = some s') : Replies s' := by
  cases e with
  | init name uuid now =>
    rw [MockSystem.step] at h
    split_ifs at h
    cases h
    exact hs.initMockMQ name uuid now hfresh
  | subscribe name topic consumeProxy now =>
    rw [MockSystem.step] at h
    split_ifs at h
    exact hs.subscribe hi.toRegistry h
  | send name topic pm withReply uuid now =>
    rw [MockSystem.step] at h
    split_ifs at h
    exact hs.of_same (hi.sameTopics_send h)
  | call =>
    rw [MockSystem.step] at h
    split at h
    · refine hs.of_same (SameTopics.trans ?_ (sameTopics_mockDoCallback h))
      exact ⟨rfl, fun _ => rfl⟩
    · cases h
  | answer resp now =>
    rw [MockSystem.step] at h
    split at h
    · rename_i msg frames hframes
      cases h
      have hdrop : SameTopics s { s with frames } := ⟨rfl, fun _ => rfl⟩
      have hregistry : Registry { s with frames } := ⟨hi.unopened, hi.queues, hi.registers⟩
      cases resp with
      | none => exact hs.of_same hdrop
      | some resp =>
        rw [afterCallback]
        split_ifs
        · exact hs.of_same (hdrop.trans (hregistry.sameTopics_managerPublish _ now resp))
        · exact hs.of_same hdrop
    · cases h

theorem run_replies {events : List Event} {s : MockSystem} (hrun : run step {} events = some s)
    (hfresh : Throughout step FreshReplies {} events) : Replies s := by
  have hstep : ∀ s e s', Invariant s ∧ Replies s → FreshReplies s e →
      MockSystem.step s e = some s' → Invariant s' ∧ Replies s' :=
    fun _ _ _ hs hf h => ⟨step_invariant hs.1 h, hs.2.step hs.1 hf h⟩
  exact (hfresh.invariant hstep ⟨invariant_empty, replies_empty⟩ hrun).2

/-! ## Queries -/

/-- The topic of a consumer that is not for replies calls that consumer and nobody else. -/
theorem Replies.consumer_queue {s : MockSystem} (hs : Replies s) (hr : Registry s)
    {topic n : String} {consumer : MQConsumerProxy}
    (hconsumer : (consumersOn topic s.history).head? = some (n, consumer))
    (htopic : ∀ name worker, s.mockInstances name = some worker →
      worker.waitingResponseTopic ≠ topic) :
    ∃ q, s.topicQueues topic = some q ∧ q.topic = topic ∧ q.subscribes = [.bindToOnMessage n] := by
  cases hq : s.topicQueues topic with
  | none =>
    rw [consumersOn_of_hasSubscriber (hr.unopened topic hq)] at hconsumer
    cases hconsumer
  | some q =>
    have hqueue := hr.queues topic q hq
    have hall : ∀ cb ∈ q.subscribes, decide (cb.pointer = .onMessage) = true := by
      intro cb hcb
      cases cb with
      | bindToOnMessage name => rfl
      | bindToReplyMessage name =>
        obtain ⟨worker, hworker, ht⟩ := hs.own topic q name hq hcb
        exact absurd ht (htopic name worker hworker)
    have hsubscribes := hqueue.consumer
    rw [List.filter_eq_self.mpr hall, hconsumer] at hsubscribes
    exact ⟨q, rfl, hqueue.topic_eq, hsubscribes⟩

/-- What `Send` makes of a message that is to be answered. -/
def sentMessage (worker : MockMQ) (pm : MQPublishMessage) (uuid : String) : MQPublishMessage :=
  { pm with
    replyTo := worker.waitingResponseTopic
    correlationID := if "" = pm.correlationID then uuid else pm.correlationID }

/-- A query is sent, the consumer called with it answers `NewMQResponseMessage`, and the first
subscriber of the reply topic is called with the answer. -/
def query (s : MockSystem) (name topic : String) (pm : MQPublishMessage) (uuid : String)
    (body : Bytes) (now now' : ℤ) : Option MockSystem :=
  match run step s [.send name topic pm true uuid now, .call] with
  | none => none
  | some s =>
    match s.frames with
    | .running msg :: _ =>
      run step s [.answer (some (.newMQResponseMessage body (some msg))) now', .call]
    | _ => none

/-- The response has the body that was answered and the fields of the query. -/
structure Echoes (body : Bytes) (pm : MQPublishMessage) (resp : MQConsumerMessage) : Prop where
  body : resp.body = body
  correlationID : resp.correlationID = pm.correlationID
  messageID : resp.messageID = pm.messageID
  appID : resp.appID = pm.appID
  userID : resp.userID = pm.userID
  contentType : resp.contentType = pm.contentType

/-- The channel of the query gets a response that echoes it. -/
def Echoed (s : MockSystem) (name topic : String) (pm : MQPublishMessage) (uuid : String)
    (body : Bytes) (now now' : ℤ) : Prop :=
  ∃ worker s' resp, s.mockInstances name = some worker ∧
    s.query name topic pm uuid body now now' = some s' ∧
    s'.answers = s.answers ++ [(s.waiters, resp)] ∧ Echoes body (sentMessage worker pm uuid) resp

/-- The state in which the calls of a query find what they need. -/
structure Asking (s s' : MockSystem) (name correlationID : String) (frame : MockFrame) : Prop where
  queues : s'.topicQueues = s.topicQueues
  registered : ∀ n topic, s'.registered n topic = s.registered n topic
  answers : s'.answers = s.answers
  waits : ∃ worker, s'.mockInstances name = some worker ∧
    worker.waitingResponseMessages correlationID = some s.waiters
  frames : ∃ frames, s'.frames = frame :: frames

theorem step_send_query {s : MockSystem} (hidle : s.idle = true) {name topic : String}
    {worker : MockMQ} (hworker : s.mockInstances name = some worker) {q : MockQueue}
    (hq : s.topicQueues topic = some q) {cb : MockCallback} (hsubscribes : q.subscribes = [cb])
    (pm : MQPublishMessage) (uuid : String) (now : ℤ) :
    ∃ s', step s (.send name topic pm true uuid now) = some s' ∧
      Asking s s' name (sentMessage worker pm uuid).correlationID
        (.call ⟨cb, q.consumerMessage now (sentMessage worker pm uuid)⟩) := by
  have hne : q.subscribes ≠ [] := by rw [hsubscribes]; exact List.cons_ne_nil _ _
  have hq' : (s.prepareRepliablePubilshMessage name worker pm uuid).1.topicQueues topic = some q :=
    hq
  have hsend : step s (.send name topic pm true uuid now) =
      some ((s.prepareRepliablePubilshMessage name worker pm uuid).1.managerPublish topic now
        (sentMessage worker pm uuid)) := by
    rw [step, if_pos hidle, send, hworker]
    rfl
  rw [managerPublish_of_some hq' hne, hsubscribes] at hsend
  have hregistered : ∀ n t, (s.prepareRepliablePubilshMessage name worker pm uuid).1.registered n t =
      s.registered n t := registered_waiting hworker rfl
  exact ⟨_, hsend, rfl, hregistered, rfl,
    ⟨_, GoMap.store_self _ _ _, GoMap.store_self _ _ _⟩, _, rfl⟩

theorem Asking.step_call {s s' : MockSystem} {name n correlationID : String}
    {msg : MQConsumerMessage}
    (h : Asking s s' name correlationID (.call ⟨.bindToOnMessage n, msg⟩))
    {consumer : MQConsumerProxy} (hregistered : s.registered n msg.consumerTag = some consumer)
    (hcallback : consumer.callback ≠ none) :
    ∃ t, step s' .call = some t ∧ Asking s t name correlationID (.running msg) := by
  obtain ⟨frames, hframes⟩ := h.frames
  have hbind : (({ s' with frames } : MockSystem).mockInstances n).bind
      (fun worker => worker.consumerRegisters msg.consumerTag) = some consumer :=
    (h.registered n msg.consumerTag).trans hregistered
  rw [step, hframes]
  dsimp only
  rw [mockDoCallback]
  dsimp only
  rw [bindToOnMessage, hbind]
  dsimp only
  cases hc : consumer.callback with
  | none => exact absurd hc hcallback
  | some address => exact ⟨_, rfl, h.queues, h.registered, h.answers, h.waits, frames, rfl⟩

theorem Asking.step_answer {s s' : MockSystem} {name correlationID : String}
    {msg : MQConsumerMessage} (h : Asking s s' name correlationID (.running msg))
    (hreply : msg.replyTo ≠ "") {q : MockQueue} (hq : s.topicQueues msg.replyTo = some q)
    {cb : MockCallback} (hhead : q.subscribes.head? = some cb) (resp : MQPublishMessage) (now : ℤ) :
    ∃ t, step s' (.answer (some resp) now) = some t ∧
      Asking s t name correlationID (.call ⟨cb, q.consumerMessage now resp⟩) := by
  obtain ⟨frames, hframes⟩ := h.frames
  obtain ⟨others, hsubscribes⟩ := List.head?_eq_some_iff.mp hhead
  have hne : q.subscribes ≠ [] := by rw [hsubscribes]; exact List.cons_ne_nil _ _
  have hq' : ({ s' with frames } : MockSystem).topicQueues msg.replyTo = some q :=
    (congrFun h.queues msg.replyTo).trans hq
  rw [step, hframes]
  dsimp only
  rw [afterCallback, if_pos (Ne.symm hreply), managerPublish_of_some hq' hne, hsubscribes]
  exact ⟨_, rfl, h.queues, h.registered, h.answers, h.waits, _, rfl⟩

/-- The channel of the query gets the answer. -/
theorem Asking.step_reply {s s' : MockSystem} {name correlationID : String}
    {msg : MQConsumerMessage}
    (h : Asking s s' name correlationID (.call ⟨.bindToReplyMessage name, msg⟩))
    (hid : msg.correlationID = correlationID) :
    ∃ t, step s' .call = some t ∧ t.answers = s.answers ++ [(s.waiters, msg)] := by
  obtain ⟨frames, hframes⟩ := h.frames
  obtain ⟨worker, hworker, hwaiter⟩ := h.waits
  have hworker' : ({ s' with frames } : MockSystem).mockInstances name = some worker := hworker
  rw [step, hframes]
  dsimp only
  rw [mockDoCallback]
  dsimp only
  rw [MockSystem.bindToReplyMessage, hworker']
  dsimp only
  rw [hid, hwaiter]
  exact ⟨_, rfl, by rw [← h.answers]⟩

/-- What the channel of a query gets: the message sent, turned into a consumer's message, a response
and a consumer's message again. -/
theorem Replies.query_eq {s : MockSystem} (hs : Replies s) (hi : Invariant s)
    (hidle : s.idle = true) {name topic n : String} {worker : MockMQ}
    (hworker : s.mockInstances name = some worker) {consumer : MQConsumerProxy}
    (hconsumer : (consumersOn topic s.history).head? = some (n, consumer))
    (hcallback : consumer.callback ≠ none)
    (htopic : ∀ name worker, s.mockInstances name = some worker →
      worker.waitingResponseTopic ≠ topic)
    (pm : MQPublishMessage) (uuid : String) (body : Bytes) (now now' : ℤ) :
    ∃ (q q' : MockQueue) (s' : MockSystem), s.query name topic pm uuid body now now' = some s' ∧
      s'.answers = s.answers ++ [(s.waiters, q'.consumerMessage now'
        (.newMQResponseMessage body (some (q.consumerMessage now (sentMessage worker pm uuid)))))] := by
  obtain ⟨q, hq, hqtopic, hsubscribes⟩ := hs.consumer_queue hi.toRegistry hconsumer htopic
  obtain ⟨hreply, q', hq', hhead⟩ := hs.first name worker hworker
  have hregistered : s.registered n q.topic = some consumer :=
    hqtopic ▸ hi.toRegistry.registered_first hconsumer
  obtain ⟨s₁, hsend, h₁⟩ := step_send_query hidle hworker hq hsubscribes pm uuid now
  obtain ⟨s₂, hcall, h₂⟩ := h₁.step_call hregistered hcallback
  obtain ⟨s₃, hanswer, h₃⟩ := h₂.step_answer hreply hq' hhead
    (.newMQResponseMessage body (some (q.consumerMessage now (sentMessage worker pm uuid)))) now'
  obtain ⟨s₄, hrespond, hanswers⟩ := h₃.step_reply rfl
  obtain ⟨frames, hframes⟩ := h₂.frames
  refine ⟨q, q', s₄, ?_, hanswers⟩
  have hfirst : run MockSystem.step s [.send name topic pm true uuid now, .call] = some s₂ :=
    run_cons_eq_some.mpr ⟨s₁, hsend, run_cons_eq_some.mpr ⟨s₂, hcall, rfl⟩⟩
  rw [query, hfirst]
  dsimp only
  rw [hframes]
  exact run_cons_eq_some.mpr ⟨s₃, hanswer, run_cons_eq_some.mpr ⟨s₄, hrespond, rfl⟩⟩

/-- Of the fields that the conversions copy, only the application is another one. -/
theorem echoes_iff (q q' : MockQueue) (body : Bytes) (pm : MQPublishMessage) (now now' : ℤ) :
    Echoes body pm (q'.consumerMessage now'
        (.newMQResponseMessage body (some (q.consumerMessage now pm)))) ↔
      pm.appID = pm.messageID :=
  ⟨fun h => h.appID.symm, fun h => ⟨rfl, rfl, rfl, h.symm, rfl, rfl⟩⟩

theorem Replies.echoed_iff {s : MockSystem} (hs : Replies s) (hi : Invariant s)
    (hidle : s.idle = true) {name topic n : String} {worker : MockMQ}
    (hworker : s.mockInstances name = some worker) {consumer : MQConsumerProxy}
    (hconsumer : (consumersOn topic s.history).head? = some (n, consumer))
    (hcallback : consumer.callback ≠ none)
    (htopic : ∀ name worker, s.mockInstances name = some worker →
      worker.waitingResponseTopic ≠ topic)
    (pm : MQPublishMessage) (uuid : String) (body : Bytes) (now now' : ℤ) :
    s.Echoed name topic pm uuid body now now' ↔ pm.appID = pm.messageID := by
  obtain ⟨q, q', s', hquery, hanswers⟩ :=
    hs.query_eq hi hidle hworker hconsumer hcallback htopic pm uuid body now now'
  have hiff := echoes_iff q q' body (sentMessage worker pm uuid) now now'
  constructor
  · rintro ⟨worker', t, resp, hworker', hquery', hanswers', hechoes⟩
    obtain rfl := Option.some.inj (hworker.symm.trans hworker')
    obtain rfl := Option.some.inj (hquery.symm.trans hquery')
    have hresp := List.append_cancel_left (hanswers.symm.trans hanswers')
    obtain rfl := (Prod.mk.inj (List.singleton_inj.mp hresp)).2
    exact hiff.mp hechoes
  · intro happ
    exact ⟨worker, s', _, hworker, hquery, hanswers, hiff.mpr happ⟩

/-- A query to a consumer that answers at once is echoed exactly when the application of its message
is the message identifier. -/
theorem run_echoed_iff {events : List Event} {s : MockSystem} (hrun : run step {} events = some s)
    (hfresh : Throughout step FreshReplies {} events) (hidle : s.idle = true)
    {name topic n : String} {worker : MockMQ} (hworker : s.mockInstances name = some worker)
    {consumer : MQConsumerProxy}
    (hconsumer : (consumersOn topic s.history).head? = some (n, consumer))
    (hcallback : consumer.callback ≠ none)
    (htopic : ∀ name worker, s.mockInstances name = some worker →
      worker.waitingResponseTopic ≠ topic)
    (pm : MQPublishMessage) (uuid : String) (body : Bytes) (now now' : ℤ) :
    s.Echoed name topic pm uuid body now now' ↔ pm.appID = pm.messageID :=
  (run_replies hrun hfresh).echoed_iff (run_invariant invariant_empty hrun) hidle hworker hconsumer
    hcallback htopic pm uuid body now now'

/-- A worker and a consumer of its own. -/
def oneWorker : List Event :=
  [.init "a" "1" 0, .subscribe "a" "orders" { callback := some 1 } 0]

theorem oneWorker_fresh : Throughout step FreshReplies {} oneWorker :=
  .cons (fun _ => rfl) rfl (.cons trivial rfl trivial)

/-- The state `oneWorker` leads to. -/
def oneWorkerState : MockSystem :=
  (run step {} oneWorker).getD {}

theorem run_oneWorker : run step {} oneWorker = some oneWorkerState := rfl

theorem oneWorkerState_topics : ∀ name worker, oneWorkerState.mockInstances name = some worker →
    worker.waitingResponseTopic ≠ "orders" := by
  intro name worker hworker
  obtain ⟨-, rfl⟩ | ⟨-, hold⟩ := GoMap.of_store_eq_some hworker
  · decide
  · obtain ⟨-, rfl⟩ | ⟨-, hold⟩ := GoMap.of_store_eq_some hold
    · decide
    · cases hold

theorem run_echoed_iff_oneWorker :
    oneWorkerState.Echoed "a" "orders" { appID := "shop", messageID := "shop" } "2" [1] 1 2 ↔
      "shop" = "shop" :=
  run_echoed_iff run_oneWorker oneWorker_fresh rfl rfl rfl (by decide)
    oneWorkerState_topics _ _ _ _ _

/-- The response carries the message identifier where the query had the application. -/
theorem oneWorker_not_echoed :
    run step {} oneWorker = some oneWorkerState ∧
      ¬ oneWorkerState.Echoed "a" "orders" { appID := "shop", messageID := "m1" } "2" [1] 1 2 := by
  refine ⟨run_oneWorker, fun h => ?_⟩
  have hs := run_replies run_oneWorker oneWorker_fresh
  have hi := run_invariant invariant_empty run_oneWorker
  have happ := (hs.echoed_iff hi rfl rfl rfl (by decide) oneWorkerState_topics _ _ _ _ _).mp h
  exact absurd happ (by decide)

end MockSystem
end Gocom
