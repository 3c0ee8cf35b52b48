import Gocom.GuardedRuns
import Gocom.MockMQ
import Mathlib.Data.List.Forall2

/-!
# Delivery by the mock queue

The first worker that subscribes a consumer on a topic is called for every message published there
from then on. A second one is not added to the queue, its method being the same, and a message on a
topic without subscribers is not stored.
-/

namespace Gocom
namespace MockSystem

open Runs

/-! ## Reading the record -/

/-- The messages published on a topic. -/
def publishedOn (topic : String) (h : List MockOccurrence) : List MQPublishMessage :=
  h.filterMap fun
    | .published t msg => if t = topic then some msg else none
    | _ => none

/-- The consumers that were to be subscribed on a topic, with their workers. -/
def consumersOn (topic : String) (h : List MockOccurrence) : List (String × MQConsumerProxy) :=
  h.filterMap fun
    | .subscribed t name consumeProxy => if t = topic then some (name, consumeProxy) else none
    | _ => none

/-- The messages of a topic that the callback of a consumer was called with. -/
def receivedBy (name : String) (consumeProxy : MQConsumerProxy) (topic : String)
    (h : List MockOccurrence) : List MQConsumerMessage :=
  h.filterMap fun
    | .received n p msg =>
      if n = name ∧ p = consumeProxy ∧ msg.consumerTag = topic then some msg else none
    | _ => none

def subscribesTo (topic : String) : MockOccurrence → Bool
  | .opened t => t = topic
  | .subscribed t _ _ => t = topic
  | _ => false

def hasSubscriber (topic : String) (h : List MockOccurrence) : Bool :=
  h.any (subscribesTo topic)

/-- A consumer message is that of a published one. -/
def Carries (topic : String) (pm : MQPublishMessage) (msg : MQConsumerMessage) : Prop :=
  ∃ now, msg = { MQConsumerMessage.newConsumerMessageFromPublishMessage pm now with
    consumerTag := topic }

/-- Every consumer got the messages published on its topic after it was subscribed, and before them
those from before if it was the first subscriber, each of them once and in order. -/
def Served (h : List MockOccurrence) : Prop :=
  ∀ before topic name consumeProxy after,
    h = before ++ .subscribed topic name consumeProxy :: after →
    List.Forall₂ (Carries topic)
      ((if hasSubscriber topic before then [] else publishedOn topic before) ++
        publishedOn topic after)
      (receivedBy name consumeProxy topic after)

/-- Where a consumer is subscribed there was a subscriber before or no message, and there is no
message later unless it is the first consumer of the topic. -/
def Unharmed (h : List MockOccurrence) : Prop :=
  ∀ before topic name consumeProxy after,
    h = before ++ .subscribed topic name consumeProxy :: after →
    (hasSubscriber topic before = true ∨ publishedOn topic before = []) ∧
      ∀ first, (consumersOn topic before).head? = some first →
        first = (name, consumeProxy) ∨ publishedOn topic after = []

section record

variable (topic : String) (h h' : List MockOccurrence)

theorem publishedOn_append :
    publishedOn topic (h ++ h') = publishedOn topic h ++ publishedOn topic h' :=
  List.filterMap_append

theorem consumersOn_append :
    consumersOn topic (h ++ h') = consumersOn topic h ++ consumersOn topic h' :=
  List.filterMap_append

theorem receivedBy_append (name : String) (consumeProxy : MQConsumerProxy) :
    receivedBy name consumeProxy topic (h ++ h') =
      receivedBy name consumeProxy topic h ++ receivedBy name consumeProxy topic h' :=
  List.filterMap_append

theorem hasSubscriber_append :
    hasSubscriber topic (h ++ h') = (hasSubscriber topic h || hasSubscriber topic h') :=
  List.any_append

end record

/-- Without a subscriber there is no consumer. -/
theorem consumersOn_of_hasSubscriber {topic : String} {h : List MockOccurrence}
    (hnone : hasSubscriber topic h = false) : consumersOn topic h = [] := by
  refine List.filterMap_eq_nil_iff.mpr fun o ho => ?_
  have hother := List.any_eq_false.mp hnone o ho
  cases o with
  | subscribed t name consumeProxy =>
    exact if_neg fun ht => hother (decide_eq_true ht)
  | opened | published | received => rfl

/-- The first consumer stays the first. -/
theorem head?_consumersOn_append {topic : String} {h : List MockOccurrence}
    {first : String × MQConsumerProxy} (hfirst : (consumersOn topic h).head? = some first)
    (h' : List MockOccurrence) : (consumersOn topic (h ++ h')).head? = some first := by
  rw [consumersOn_append, List.head?_append, hfirst]
  rfl

/-- Where a consumer stands in a record that grew by one. -/
theorem split_concat {h before after : List MockOccurrence} {o o' : MockOccurrence}
    (hsplit : h ++ [o] = before ++ o' :: after) :
    (after = [] ∧ o' = o ∧ before = h) ∨
      ∃ rest, after = rest ++ [o] ∧ h = before ++ o' :: rest := by
  obtain rfl | ⟨rest, last, rfl⟩ := List.eq_nil_or_concat after
  · obtain ⟨hbefore, hlast⟩ := List.append_inj' hsplit rfl
    exact .inl ⟨rfl, (List.singleton_inj.mp hlast).symm, hbefore.symm⟩
  · rw [List.concat_eq_append, ← List.cons_append, ← List.append_assoc] at hsplit
    obtain ⟨hrest, hlast⟩ := List.append_inj' hsplit rfl
    rw [List.concat_eq_append, List.singleton_inj.mp hlast]
    exact .inr ⟨rest, rfl, hrest⟩

/-! ## Calls under way -/

/-- The messages that consumers are still to be called with. -/
def pending (frames : List MockFrame) : List MQConsumerMessage :=
  frames.filterMap fun
    | .call ⟨.bindToOnMessage _, msg⟩ => some msg
    | _ => none

/-- While a consumer runs no other is to be called after it. -/
def Tidy : List MockFrame → Prop
  | [] => True
  | .call _ :: frames => Tidy frames
  | .running _ :: frames => pending frames = [] ∧ Tidy frames

theorem tidy_calls (calls : List MockCall) {frames : List MockFrame} (h : Tidy frames) :
    Tidy (calls.map .call ++ frames) := by
  induction calls with
  | nil => exact h
  | cons c calls ih => exact ih

theorem pending_append (frames frames' : List MockFrame) :
    pending (frames ++ frames') = pending frames ++ pending frames' := List.filterMap_append

theorem pending_of_idle {s : MockSystem} (h : Tidy s.frames) (hidle : s.idle = true) :
    pending s.frames = [] := by
  rw [idle] at hidle
  cases hframes : s.frames with
  | nil => rfl
  | cons frame frames =>
    rw [hframes] at h hidle
    cases frame with
    | call c => exact absurd hidle Bool.false_ne_true
    | running msg => exact h.1

/-- Of the subscribers of a message, the consumers are to be called. -/
theorem pending_calls (subscribes : List MockCallback) (msg : MQConsumerMessage) :
    pending ((subscribes.map fun cb => MockCall.mk cb msg).map .call) =
      (subscribes.filter fun cb => cb.pointer = .onMessage).map fun _ => msg := by
  induction subscribes with
  | nil => rfl
  | cons cb subscribes ih =>
    cases cb with
    | bindToOnMessage name => exact congrArg (msg :: ·) ih
    | bindToReplyMessage name => exact ih

/-! ## The invariant -/

/-- The queue of a topic stores nothing and has one consumer, the first, if there is any. -/
structure QueueInvariant (h : List MockOccurrence) (topic : String) (q : MockQueue) : Prop where
  opened : hasSubscriber topic h = true
  topic_eq : q.topic = topic
  messages : q.messages = []
  subscribes : q.subscribes ≠ []
  consumer : q.subscribes.filter (fun cb => cb.pointer = .onMessage) =
    ((consumersOn topic h).head?.map fun c => MockCallback.bindToOnMessage c.1).toList

/-- The consumer that a worker calls for a topic. -/
def registered (s : MockSystem) (name topic : String) : Option MQConsumerProxy :=
  (s.mockInstances name).bind fun worker => worker.consumerRegisters topic

/-- The queues and the registers of the workers are as recorded. -/
structure Registry (s : MockSystem) : Prop where
  unopened : ∀ topic, s.topicQueues topic = none → hasSubscriber topic s.history = false
  queues : ∀ topic q, s.topicQueues topic = some q → QueueInvariant s.history topic q
  registers : ∀ name topic, s.registered name topic =
    ((consumersOn topic s.history).find? fun c => c.1 = name).map Prod.snd

/-- What the first consumer of a topic has received, and is to be called with, was published there
since. -/
def Delivered (h : List MockOccurrence) (frames : List MockFrame) : Prop :=
  ∀ before topic name consumeProxy after,
    h = before ++ .subscribed topic name consumeProxy :: after →
    (consumersOn topic (before ++ [.subscribed topic name consumeProxy])).head? =
      some (name, consumeProxy) →
    List.Forall₂ (Carries topic) (publishedOn topic after)
      (receivedBy name consumeProxy topic after ++
        (pending frames).filter fun msg => msg.consumerTag = topic)

/-- Only first consumers are called, one at a time. -/
structure Delivery (s : MockSystem) : Prop where
  received : ∀ name consumeProxy msg, .received name consumeProxy msg ∈ s.history →
    (consumersOn msg.consumerTag s.history).head? = some (name, consumeProxy)
  calls : ∀ name msg, .call ⟨.bindToOnMessage name, msg⟩ ∈ s.frames →
    ∃ consumeProxy, (consumersOn msg.consumerTag s.history).head? = some (name, consumeProxy)
  pending_le : (pending s.frames).length ≤ 1
  tidy : Tidy s.frames
  delivered : Delivered s.history s.frames

structure Invariant (s : MockSystem) : Prop extends Registry s, Delivery s

theorem invariant_empty : Invariant {} where
  unopened := fun _ _ => rfl
  queues := fun _ _ h => by cases h
  registers := fun _ _ => rfl
  received := fun _ _ _ h => by cases h
  calls := fun _ _ h => by cases h
  pending_le := Nat.zero_le 1
  tidy := trivial
  delivered := fun before _ _ _ _ h => by cases before <;> cases h

/-! ## Records that grow -/

/-- Neither a publication nor a reception is a subscription. -/
def Passing (o : MockOccurrence) : Prop :=
  ∀ topic, consumersOn topic [o] = [] ∧ hasSubscriber topic [o] = false

theorem passing_published (topic : String) (msg : MQPublishMessage) :
    Passing (.published topic msg) := fun _ => ⟨rfl, rfl⟩

theorem passing_received (name : String) (consumeProxy : MQConsumerProxy)
    (msg : MQConsumerMessage) : Passing (.received name consumeProxy msg) := fun _ => ⟨rfl, rfl⟩

theorem Passing.consumersOn_append {o : MockOccurrence} (ho : Passing o) (topic : String)
    (h : List MockOccurrence) : consumersOn topic (h ++ [o]) = consumersOn topic h := by
  rw [MockSystem.consumersOn_append, (ho topic).1, List.append_nil]

theorem Passing.hasSubscriber_append {o : MockOccurrence} (ho : Passing o) (topic : String)
    (h : List MockOccurrence) : hasSubscriber topic (h ++ [o]) = hasSubscriber topic h := by
  rw [MockSystem.hasSubscriber_append, (ho topic).2, Bool.or_false]

/-- A queue stays as it is while its first consumer does. -/
theorem QueueInvariant.append {h : List MockOccurrence} {topic : String} {q : MockQueue}
    (hq : QueueInvariant h topic q) {h' : List MockOccurrence}
    (hfirst : (consumersOn topic (h ++ h')).head? = (consumersOn topic h).head?) :
    QueueInvariant (h ++ h') topic q where
  opened := by
    rw [hasSubscriber_append, hq.opened]
    rfl
  topic_eq := hq.topic_eq
  messages := hq.messages
  subscribes := hq.subscribes
  consumer := by rw [hfirst, hq.consumer]

theorem Registry.record {s : MockSystem} (hs : Registry s) {o : MockOccurrence} (ho : Passing o) :
    Registry (s.record o) where
  unopened := fun topic hq => (ho.hasSubscriber_append topic _).trans (hs.unopened topic hq)
  queues := fun topic q hq =>
    (hs.queues topic q hq).append (congrArg List.head? (ho.consumersOn_append topic _))
  registers := fun name topic => (hs.registers name topic).trans
    (by rw [MockSystem.record, ho.consumersOn_append])

/-- It is enough to look at topics with a consumer, and at what comes after it. -/
theorem Delivered.concat {h : List MockOccurrence} {frames frames' : List MockFrame}
    {o : MockOccurrence} (hd : Delivered h frames)
    (ho : ∀ topic name consumeProxy, o ≠ .subscribed topic name consumeProxy)
    (hstep : ∀ topic name consumeProxy after,
      (consumersOn topic h).head? = some (name, consumeProxy) →
      List.Forall₂ (Carries topic) (publishedOn topic after)
        (receivedBy name consumeProxy topic after ++
          (pending frames).filter fun msg => msg.consumerTag = topic) →
      List.Forall₂ (Carries topic) (publishedOn topic (after ++ [o]))
        (receivedBy name consumeProxy topic (after ++ [o]) ++
          (pending frames').filter fun msg => msg.consumerTag = topic)) :
    Delivered (h ++ [o]) frames' := by
  intro before topic name consumeProxy after hsplit hfirst
  obtain ⟨-, hlast, -⟩ | ⟨rest, rfl, rfl⟩ := split_concat hsplit
  · exact absurd hlast.symm (ho _ _ _)
  · have hhead := head?_consumersOn_append hfirst rest
    rw [List.append_assoc, List.singleton_append] at hhead
    exact hstep topic name consumeProxy rest hhead
      (hd before topic name consumeProxy rest rfl hfirst)

theorem publishedOn_concat (topic t : String) (h : List MockOccurrence) (msg : MQPublishMessage) :
    publishedOn topic (h ++ [.published t msg]) =
      publishedOn topic h ++ if t = topic then [msg] else [] := by
  rw [publishedOn_append]
  split_ifs with ht <;> simp [publishedOn, ht]

theorem receivedBy_concat (name n : String) (consumeProxy p : MQConsumerProxy) (topic : String)
    (h : List MockOccurrence) (msg : MQConsumerMessage) :
    receivedBy name consumeProxy topic (h ++ [.received n p msg]) =
      receivedBy name consumeProxy topic h ++
        if n = name ∧ p = consumeProxy ∧ msg.consumerTag = topic then [msg] else [] := by
  rw [receivedBy_append]
  split_ifs with hn <;> simp [receivedBy, hn]

/-! ## Publishing -/

theorem topicQueues_store_self {s : MockSystem} {topic : String} {q : MockQueue}
    (hq : s.topicQueues topic = some q) : s.topicQueues.store topic q = s.topicQueues := by
  funext t
  rw [GoMap.store_apply]
  split_ifs with ht
  · rw [ht, hq]
  · rfl

theorem managerPublish_of_none {s : MockSystem} {topic : String}
    (hq : s.topicQueues topic = none) (now : ℤ) (msg : MQPublishMessage) :
    s.managerPublish topic now msg = s.record (.published topic msg) := by
  rw [managerPublish]
  dsimp only
  rw [show (s.record (.published topic msg)).topicQueues topic = none from hq]

theorem managerPublish_of_some {s : MockSystem} {topic : String} {q : MockQueue}
    (hq : s.topicQueues topic = some q) (hsubscribes : q.subscribes ≠ []) (now : ℤ)
    (msg : MQPublishMessage) :
    s.managerPublish topic now msg = { s.record (.published topic msg) with
      frames := (q.subscribes.map fun cb => MockCall.mk cb (q.consumerMessage now msg)).map .call ++
        s.frames } := by
  have hlength : ¬ q.subscribes.length < 1 := by
    have hpos := List.length_pos_iff.mpr hsubscribes
    omega
  rw [managerPublish]
  dsimp only
  rw [show (s.record (.published topic msg)).topicQueues topic = some q from hq]
  dsimp only
  rw [MockQueue.publish, if_neg hlength]
  dsimp only [MockSystem.record]
  rw [topicQueues_store_self hq]

theorem receivedBy_published (name : String) (consumeProxy : MQConsumerProxy) (t topic : String)
    (h : List MockOccurrence) (msg : MQPublishMessage) :
    receivedBy name consumeProxy t (h ++ [.published topic msg]) =
      receivedBy name consumeProxy t h :=
  (receivedBy_append ..).trans (List.append_nil _)

/-- Of the calls of a queue, that of the first consumer is pending. -/
theorem QueueInvariant.pending_calls {h : List MockOccurrence} {topic : String} {q : MockQueue}
    (hq : QueueInvariant h topic q) (m : MQConsumerMessage) {frames : List MockFrame}
    (hpending : pending frames = []) :
    pending ((q.subscribes.map fun cb => MockCall.mk cb m).map .call ++ frames) =
      ((consumersOn topic h).head?.map fun _ => m).toList := by
  rw [pending_append, hpending, List.append_nil, MockSystem.pending_calls, hq.consumer]
  cases (consumersOn topic h).head? <;> rfl

/-- The consumer that a queue calls is the first one. -/
theorem QueueInvariant.first_called {h : List MockOccurrence} {topic name : String}
    {q : MockQueue} {m m' : MQConsumerMessage} (hq : QueueInvariant h topic q)
    (hm : .call ⟨.bindToOnMessage name, m'⟩ ∈
      (q.subscribes.map fun cb => MockCall.mk cb m).map MockFrame.call) :
    m' = m ∧ ∃ consumeProxy, (consumersOn topic h).head? = some (name, consumeProxy) := by
  obtain ⟨c, hc, hcall⟩ := List.mem_map.mp hm
  obtain ⟨cb, hcb, rfl⟩ := List.mem_map.mp hc
  cases hcall
  have hconsumer : MockCallback.bindToOnMessage name ∈
      q.subscribes.filter fun cb => cb.pointer = .onMessage :=
    List.mem_filter.mpr ⟨hcb, rfl⟩
  rw [hq.consumer, Option.mem_toList] at hconsumer
  obtain ⟨first, hfirst, hname⟩ := Option.map_eq_some_iff.mp hconsumer
  cases hname
  exact ⟨rfl, first.2, hfirst⟩

/-- A message published on a topic with a consumer is pending there, and on no other topic. -/
theorem forall₂_published {topic t : String} {h after : List MockOccurrence}
    {received : List MQConsumerMessage} {first : String × MQConsumerProxy}
    {pm : MQPublishMessage} {m : MQConsumerMessage} (hm : Carries topic pm m)
    (hfirst : (consumersOn t h).head? = some first)
    (hafter : List.Forall₂ (Carries t) (publishedOn t after) received) :
    List.Forall₂ (Carries t) (publishedOn t (after ++ [.published topic pm]))
      (received ++ (((consumersOn topic h).head?.map fun _ => m).toList.filter
        fun m => m.consumerTag = t)) := by
  have htag : m.consumerTag = topic := by
    obtain ⟨now, rfl⟩ := hm
    rfl
  rw [publishedOn_concat]
  split_ifs with ht
  · subst ht
    rw [hfirst]
    change List.Forall₂ _ _ (_ ++ [m].filter _)
    rw [List.filter_singleton, htag, decide_eq_true rfl, cond_true]
    exact List.rel_append hafter (.cons hm .nil)
  · have hother : ((consumersOn topic h).head?.map fun _ => m).toList.filter
        (fun m => m.consumerTag = t) = [] := by
      refine List.filter_eq_nil_iff.mpr fun m' hm' => ?_
      obtain ⟨-, -, rfl⟩ := Option.map_eq_some_iff.mp (Option.mem_toList.mp hm')
      rw [htag]
      exact fun h => ht (of_decide_eq_true h)
    rw [hother, List.append_nil, List.append_nil]
    exact hafter

/-- Published where a consumer is subscribed, a message is to be received by the first one. -/
theorem Invariant.publish {s : MockSystem} (hs : Invariant s) (hpending : pending s.frames = [])
    (topic : String) (now : ℤ) (msg : MQPublishMessage) :
    Invariant (s.managerPublish topic now msg) := by
  have hpass := passing_published topic msg
  have hregistry := hs.toRegistry.record hpass
  have hreceived : ∀ name consumeProxy m,
      .received name consumeProxy m ∈ s.history ++ [.published topic msg] →
      (consumersOn m.consumerTag (s.history ++ [.published topic msg])).head? =
        some (name, consumeProxy) := by
    intro name consumeProxy m hm
    rw [hpass.consumersOn_append]
    exact hs.received name consumeProxy m (by simpa using hm)
  have hcalls : ∀ name m, .call ⟨.bindToOnMessage name, m⟩ ∈ s.frames →
      ∃ consumeProxy, (consumersOn m.consumerTag (s.history ++ [.published topic msg])).head? =
        some (name, consumeProxy) := by
    intro name m hm
    rw [hpass.consumersOn_append]
    exact hs.calls name m hm
  have hnot : ∀ t name consumeProxy,
      MockOccurrence.published topic msg ≠ .subscribed t name consumeProxy :=
    fun _ _ _ => MockOccurrence.noConfusion
  cases hq : s.topicQueues topic with
  | none =>
    rw [managerPublish_of_none hq]
    refine ⟨hregistry, ⟨hreceived, hcalls, hs.pending_le, hs.tidy, hs.delivered.concat hnot ?_⟩⟩
    intro t name consumeProxy after hfirst hafter
    have ht : topic ≠ t := by
      rintro rfl
      rw [consumersOn_of_hasSubscriber (hs.unopened topic hq)] at hfirst
      cases hfirst
    rw [publishedOn_concat, if_neg ht, List.append_nil, receivedBy_published]
    exact hafter
  | some q =>
    have hqueue := hs.queues topic q hq
    have hnew := hqueue.pending_calls (q.consumerMessage now msg) hpending
    rw [managerPublish_of_some hq hqueue.subscribes]
    refine ⟨⟨hregistry.unopened, hregistry.queues, hregistry.registers⟩,
      ⟨hreceived, ?_, ?_, tidy_calls _ hs.tidy, hs.delivered.concat hnot ?_⟩⟩
    · intro name m hm
      obtain hm | hm := List.mem_append.mp hm
      · obtain ⟨rfl, consumeProxy, hfirst⟩ := hqueue.first_called hm
        refine ⟨consumeProxy, ?_⟩
        rw [MockSystem.record, hpass.consumersOn_append]
        change (consumersOn q.topic s.history).head? = _
        rw [hqueue.topic_eq, hfirst]
      · exact hcalls name m hm
    · rw [hnew]
      cases (consumersOn topic s.history).head? with
      | none => exact Nat.zero_le 1
      | some first => exact Nat.le_refl 1
    · intro t name consumeProxy after hfirst hafter
      rw [hpending, List.filter_nil, List.append_nil] at hafter
      rw [receivedBy_published, hnew]
      refine forall₂_published ⟨now, ?_⟩ hfirst hafter
      rw [MockQueue.consumerMessage, hqueue.topic_eq]

/-! ## Subscribing -/

/-- A subscription passes without a call: a first consumer has nothing to receive yet. -/
theorem Delivery.record {s : MockSystem} (hs : Delivery s) (hpending : pending s.frames = [])
    {o : MockOccurrence} (hpublished : ∀ topic, publishedOn topic [o] = [])
    (hreceived : ∀ name consumeProxy msg, o ≠ .received name consumeProxy msg) :
    Delivery (s.record o) where
  received := fun name consumeProxy msg hm => by
    obtain hm | hm := List.mem_append.mp hm
    · exact head?_consumersOn_append (hs.received name consumeProxy msg hm) [o]
    · exact absurd (List.mem_singleton.mp hm).symm (hreceived name consumeProxy msg)
  calls := fun name msg hm =>
    have ⟨consumeProxy, hfirst⟩ := hs.calls name msg hm
    ⟨consumeProxy, head?_consumersOn_append hfirst [o]⟩
  pending_le := hs.pending_le
  tidy := hs.tidy
  delivered := by
    intro before topic name consumeProxy after hsplit hfirst
    obtain ⟨rfl, -, -⟩ | ⟨rest, rfl, hrest⟩ := split_concat hsplit
    · change List.Forall₂ _ [] ([] ++ (pending s.frames).filter _)
      rw [hpending]
      exact .nil
    · have hnone : receivedBy name consumeProxy topic [o] = [] := by
        cases o with
        | received n p m => exact absurd rfl (hreceived n p m)
        | opened | subscribed | published => rfl
      rw [publishedOn_append, hpublished, receivedBy_append, hnone, List.append_nil,
        List.append_nil]
      exact hs.delivered before topic name consumeProxy rest hrest hfirst

/-- A queue with one more subscriber, unless it has one of the same method. -/
def withSubscriber (q : MockQueue) (callback : MockCallback) : MockQueue :=
  if q.subscribes.any fun cb => cb.pointer = callback.pointer then q
  else { q with subscribes := q.subscribes ++ [callback] }

theorem withSubscriber_fields (q : MockQueue) (callback : MockCallback) :
    (withSubscriber q callback).topic = q.topic ∧
      (withSubscriber q callback).messages = q.messages ∧
      (withSubscriber q callback).subscribes ≠ [] := by
  rw [withSubscriber]
  split_ifs with hany
  · refine ⟨rfl, rfl, fun hnil => ?_⟩
    rw [hnil] at hany
    exact Bool.false_ne_true hany
  · exact ⟨rfl, rfl, List.concat_ne_nil _ _⟩

theorem subscribe_of_messages {q : MockQueue} (hmessages : q.messages = []) (now : ℤ)
    (callback : MockCallback) : q.subscribe now callback = (withSubscriber q callback, []) := by
  rw [MockQueue.subscribe, withSubscriber, hmessages]
  split_ifs <;> rfl

/-- The queue of a topic, or a new one, stores nothing and has at most the first consumer. -/
theorem Registry.queue {s : MockSystem} (hs : Registry s) (topic : String) :
    ((s.topicQueues topic).getD { topic }).topic = topic ∧
      ((s.topicQueues topic).getD { topic }).messages = [] ∧
      ((s.topicQueues topic).getD { topic }).subscribes.filter
          (fun cb => cb.pointer = .onMessage) =
        ((consumersOn topic s.history).head?.map fun c =>
          MockCallback.bindToOnMessage c.1).toList := by
  cases hq : s.topicQueues topic with
  | none =>
    rw [consumersOn_of_hasSubscriber (hs.unopened topic hq)]
    exact ⟨rfl, rfl, rfl⟩
  | some q =>
    have hqueue := hs.queues topic q hq
    exact ⟨hqueue.topic_eq, hqueue.messages, hqueue.consumer⟩

theorem managerSubscribe_of_messages {s : MockSystem} {topic : String}
    (hmessages : ((s.topicQueues topic).getD { topic }).messages = []) (now : ℤ)
    (callback : MockCallback) :
    s.managerSubscribe topic now callback =
      ({ s with
          topicQueues := s.topicQueues.store topic
            (withSubscriber ((s.topicQueues topic).getD { topic }) callback) }, []) := by
  rw [managerSubscribe]
  dsimp only
  rw [subscribe_of_messages hmessages]

theorem consumersOn_concat (topic t name : String) (consumeProxy : MQConsumerProxy)
    (h : List MockOccurrence) : consumersOn topic (h ++ [.subscribed t name consumeProxy]) =
      consumersOn topic h ++ if t = topic then [(name, consumeProxy)] else [] := by
  rw [consumersOn_append]
  split_ifs with ht <;> simp [consumersOn, ht]

/-- The first consumer of a queue is added to it, and no other. -/
theorem withSubscriber_consumer {h : List MockOccurrence} {topic : String} {q : MockQueue}
    (hconsumer : q.subscribes.filter (fun cb => cb.pointer = .onMessage) =
      ((consumersOn topic h).head?.map fun c => MockCallback.bindToOnMessage c.1).toList)
    (name : String) (consumeProxy : MQConsumerProxy) :
    (withSubscriber q (.bindToOnMessage name)).subscribes.filter
        (fun cb => cb.pointer = .onMessage) =
      ((consumersOn topic (h ++ [.subscribed topic name consumeProxy])).head?.map fun c =>
        MockCallback.bindToOnMessage c.1).toList := by
  rw [consumersOn_concat, if_pos rfl, List.head?_append, withSubscriber]
  cases hfirst : (consumersOn topic h).head? with
  | none =>
    rw [hfirst] at hconsumer
    have hany : ¬ (q.subscribes.any fun cb =>
        cb.pointer = (MockCallback.bindToOnMessage name).pointer) = true := by
      intro hany
      obtain ⟨cb, hcb, hpointer⟩ := List.any_eq_true.mp hany
      have hmem : cb ∈ q.subscribes.filter fun cb => cb.pointer = .onMessage :=
        List.mem_filter.mpr ⟨hcb, hpointer⟩
      rw [hconsumer] at hmem
      exact List.not_mem_nil hmem
    rw [if_neg hany]
    dsimp only
    rw [List.filter_append, hconsumer]
    rfl
  | some first =>
    rw [hfirst] at hconsumer
    have hmem : MockCallback.bindToOnMessage first.1 ∈
        q.subscribes.filter fun cb => cb.pointer = .onMessage := by
      rw [hconsumer]
      exact List.mem_singleton_self _
    have hany : (q.subscribes.any fun cb =>
        cb.pointer = (MockCallback.bindToOnMessage name).pointer) = true :=
      List.any_eq_true.mpr ⟨_, (List.mem_filter.mp hmem).1, (List.mem_filter.mp hmem).2⟩
    rw [if_pos hany, hconsumer]
    rfl

/-- A subscriber for replies is no consumer. -/
theorem withSubscriber_reply (q : MockQueue) (name : String) :
    (withSubscriber q (.bindToReplyMessage name)).subscribes.filter
        (fun cb => cb.pointer = .onMessage) =
      q.subscribes.filter fun cb => cb.pointer = .onMessage := by
  rw [withSubscriber]
  split_ifs
  · rfl
  · exact (List.filter_append ..).trans (List.append_nil _)

theorem registered_setInstance (s : MockSystem) (name : String) (worker : MockMQ)
    (n topic : String) : (s.setInstance name worker).registered n topic =
      if n = name then worker.consumerRegisters topic else s.registered n topic := by
  rw [registered, setInstance]
  dsimp only
  rw [GoMap.store_apply]
  split_ifs
  · rfl
  · rfl

/-- A topic gets a subscriber. -/
theorem Registry.open {s : MockSystem} (hs : Registry s) (topic : String) (callback : MockCallback)
    {o : MockOccurrence} (ho : ∀ t, hasSubscriber t [o] = decide (topic = t))
    (hothers : ∀ t, topic ≠ t → consumersOn t [o] = [])
    (hconsumer : (withSubscriber ((s.topicQueues topic).getD { topic }) callback).subscribes.filter
        (fun cb => cb.pointer = .onMessage) =
      ((consumersOn topic (s.history ++ [o])).head?.map fun c =>
        MockCallback.bindToOnMessage c.1).toList) :
    (∀ t, s.topicQueues.store topic (withSubscriber ((s.topicQueues topic).getD { topic }) callback)
        t = none → hasSubscriber t (s.history ++ [o]) = false) ∧
      ∀ t q, s.topicQueues.store topic
        (withSubscriber ((s.topicQueues topic).getD { topic }) callback) t = some q →
          QueueInvariant (s.history ++ [o]) t q := by
  have hopened : ∀ t, hasSubscriber t (s.history ++ [o]) =
      (hasSubscriber t s.history || decide (topic = t)) := fun t => by
    rw [hasSubscriber_append, ho]
  constructor
  · intro t ht
    rw [GoMap.store_apply] at ht
    split_ifs at ht with hsame
    rw [hopened, hs.unopened t ht, decide_eq_false (Ne.symm hsame)]
    rfl
  · intro t q hq
    obtain ⟨rfl, rfl⟩ | ⟨hne, hold⟩ := GoMap.of_store_eq_some hq
    · obtain ⟨htopic, hmessages, -⟩ := hs.queue t
      obtain ⟨htopic', hmessages', hne⟩ :=
        withSubscriber_fields ((s.topicQueues t).getD { topic := t }) callback
      refine ⟨?_, htopic'.trans htopic, hmessages'.trans hmessages, hne, hconsumer⟩
      rw [hopened, decide_eq_true rfl, Bool.or_true]
    · refine (hs.queues t q hold).append ?_
      rw [consumersOn_append, hothers t (Ne.symm hne), List.append_nil]

/-- A new worker subscribes for replies. -/
theorem Invariant.initMockMQ {s : MockSystem} (hs : Invariant s) (hidle : s.idle = true)
    (name uuid : String) (now : ℤ) : Invariant (s.initMockMQ name uuid now) := by
  have hpending := pending_of_idle hs.tidy hidle
  rw [MockSystem.initMockMQ]
  cases hname : s.mockInstances name with
  | some worker => exact hs
  | none =>
    dsimp only
    rw [managerSubscribe_of_messages (hs.toRegistry.queue _).2.1]
    have hconsumers : ∀ t, consumersOn t (s.history ++ [.opened ("rpc-" ++ uuid)]) =
        consumersOn t s.history := fun t => by rw [consumersOn_append]; exact List.append_nil _
    have hdelivery := hs.toDelivery.record hpending
      (o := .opened ("rpc-" ++ uuid)) (fun _ => rfl) fun _ _ _ h => by cases h
    have hopen := hs.toRegistry.open ("rpc-" ++ uuid) (.bindToReplyMessage name)
      (o := .opened ("rpc-" ++ uuid))
      (fun t => by simp [hasSubscriber, subscribesTo])
      (fun _ _ => rfl)
      (by rw [withSubscriber_reply, hconsumers]; exact (hs.toRegistry.queue _).2.2)
    refine ⟨⟨hopen.1, hopen.2, fun n t => ?_⟩, ⟨hdelivery.received, hdelivery.calls,
      hdelivery.pending_le, hdelivery.tidy, hdelivery.delivered⟩⟩
    have hreg := hs.registers n t
    rw [← hconsumers] at hreg
    refine Eq.trans ?_ hreg
    change (MockSystem.setInstance _ name
      { waitingResponseTopic := "rpc-" ++ uuid }).registered n t = _
    rw [registered_setInstance]
    split_ifs with hn
    · rw [registered, hn, hname]
      rfl
    · rfl

theorem find?_consumersOn_concat (topic t name n : String) (consumeProxy : MQConsumerProxy)
    (h : List MockOccurrence) :
    ((consumersOn t (h ++ [.subscribed topic name consumeProxy])).find? fun c => c.1 = n).map
        Prod.snd =
      (((consumersOn t h).find? fun c => c.1 = n).map Prod.snd).or
        (if topic = t ∧ name = n then some consumeProxy else none) := by
  rw [consumersOn_concat, List.find?_append, Option.map_or]
  by_cases ht : topic = t
  · by_cases hn : name = n <;> simp [ht, hn]
  · simp [ht]

/-- A worker that has a consumer for a topic keeps it. -/
theorem Registry.subscribe_again {s : MockSystem} (hs : Registry s) {name topic : String}
    {p : MQConsumerProxy} (hp : s.registered name topic = some p) (consumeProxy : MQConsumerProxy) :
    Registry (s.record (.subscribed topic name consumeProxy)) := by
  have hfind := (hs.registers name topic).symm.trans hp
  have hsome : ∃ first, (consumersOn topic s.history).head? = some first := by
    cases hlist : consumersOn topic s.history with
    | nil =>
      rw [hlist] at hfind
      cases hfind
    | cons first rest => exact ⟨first, rfl⟩
  obtain ⟨first, hfirst⟩ := hsome
  refine ⟨fun t ht => ?_, fun t q hq => ?_, fun n t => ?_⟩
  · have hnone := hs.unopened t ht
    have hne : topic ≠ t := by
      rintro rfl
      rw [consumersOn_of_hasSubscriber hnone] at hfirst
      cases hfirst
    rw [MockSystem.record, hasSubscriber_append, hnone]
    simp [hasSubscriber, subscribesTo, hne]
  · refine (hs.queues t q hq).append ?_
    rw [consumersOn_concat]
    split_ifs with ht
    · subst ht
      rw [List.head?_append, hfirst]
      rfl
    · rw [List.append_nil]
  · rw [MockSystem.record, find?_consumersOn_concat, ← hs.registers]
    change s.registered n t = _
    split_ifs with ht
    · obtain ⟨rfl, rfl⟩ := ht
      rw [hp]
      rfl
    · rw [Option.or_none]

/-- The first consumer of a topic is added to its queue, and the first of a worker to its
registers. -/
theorem Registry.subscribe_new {s : MockSystem} (hs : Registry s) {name topic : String}
    {worker : MockMQ} (hworker : s.mockInstances name = some worker)
    (hnew : worker.consumerRegisters topic = none) (consumeProxy : MQConsumerProxy) :
    Registry (({ s.record (.subscribed topic name consumeProxy) with
      topicQueues := s.topicQueues.store topic
        (withSubscriber ((s.topicQueues topic).getD { topic }) (.bindToOnMessage name)) } :
      MockSystem).setInstance name
        { worker with
          consumerRegisters := worker.consumerRegisters.store topic consumeProxy }) := by
  have hopen := hs.open topic (.bindToOnMessage name) (o := .subscribed topic name consumeProxy)
    (fun t => by simp [hasSubscriber, subscribesTo])
    (fun t ht => by simp [consumersOn, ht])
    (withSubscriber_consumer (hs.queue topic).2.2 name consumeProxy)
  refine ⟨hopen.1, hopen.2, fun n t => ?_⟩
  have hold : s.registered name t = worker.consumerRegisters t := by
    rw [registered, hworker]
    rfl
  rw [registered_setInstance]
  change _ = ((consumersOn t (s.history ++ [.subscribed topic name consumeProxy])).find? _).map _
  rw [find?_consumersOn_concat, ← hs.registers]
  by_cases hn : n = name
  · subst hn
    rw [if_pos rfl, hold]
    dsimp only
    rw [GoMap.store_apply]
    by_cases ht : t = topic
    · subst ht
      rw [if_pos rfl, if_pos ⟨rfl, rfl⟩, hnew]
      rfl
    · rw [if_neg ht, if_neg (fun h => ht h.1.symm), Option.or_none]
  · rw [if_neg hn, if_neg (fun h => hn h.2.symm), Option.or_none]
    rfl

theorem Invariant.subscribe {s s' : MockSystem} (hs : Invariant s) (hidle : s.idle = true)
    {name topic : String} {consumeProxy : MQConsumerProxy} {now : ℤ}
    (h : s.subscribe name topic consumeProxy now = some s') : Invariant s' := by
  have hpending := pending_of_idle hs.tidy hidle
  have hdelivery := hs.toDelivery.record hpending
    (o := .subscribed topic name consumeProxy) (fun _ => rfl) fun _ _ _ h => by cases h
  rw [MockSystem.subscribe] at h
  cases hworker : s.mockInstances name with
  | none =>
    rw [hworker] at h
    cases h
  | some worker =>
    rw [hworker] at h
    dsimp only at h
    cases hregister : worker.consumerRegisters topic with
    | some p =>
      rw [hregister] at h
      cases h
      have hp : s.registered name topic = some p := by
        rw [registered, hworker]
        exact hregister
      exact ⟨hs.toRegistry.subscribe_again hp consumeProxy, hdelivery⟩
    | none =>
      have hmessages := (hs.toRegistry.queue topic).2.1
      rw [hregister] at h
      dsimp only at h
      rw [managerSubscribe_of_messages (s := s.record (.subscribed topic name consumeProxy))
        hmessages] at h
      cases h
      exact ⟨hs.toRegistry.subscribe_new hworker hregister consumeProxy,
        ⟨hdelivery.received, hdelivery.calls, hdelivery.pending_le, hdelivery.tidy,
          hdelivery.delivered⟩⟩

/-! ## Calls -/

/-- What waits for replies does not matter. -/
theorem Invariant.of_same {s s' : MockSystem} (hs : Invariant s)
    (hqueues : s'.topicQueues = s.topicQueues) (hframes : s'.frames = s.frames)
    (hhistory : s'.history = s.history)
    (hregistered : ∀ name topic, s'.registered name topic = s.registered name topic) :
    Invariant s' := by
  refine ⟨⟨?_, ?_, ?_⟩, ⟨?_, ?_, ?_, ?_, ?_⟩⟩
  · rw [hqueues, hhistory]
    exact hs.unopened
  · rw [hqueues, hhistory]
    exact hs.queues
  · intro name topic
    rw [hregistered, hhistory]
    exact hs.registers name topic
  · rw [hhistory]
    exact hs.received
  · rw [hframes, hhistory]
    exact hs.calls
  · rw [hframes]
    exact hs.pending_le
  · rw [hframes]
    exact hs.tidy
  · rw [hframes, hhistory]
    exact hs.delivered

/-- A worker that only changes what it waits for calls the same consumers. -/
theorem registered_waiting {s : MockSystem} {name : String} {worker worker' : MockMQ}
    (hworker : s.mockInstances name = some worker)
    (hsame : worker'.consumerRegisters = worker.consumerRegisters) (n topic : String) :
    (s.setInstance name worker').registered n topic = s.registered n topic := by
  rw [registered_setInstance]
  split_ifs with hn
  · rw [registered, hn, hworker, hsame]
    rfl
  · rfl

theorem Invariant.bindToReplyMessage {s : MockSystem} (hs : Invariant s) (name : String)
    (msg : MQConsumerMessage) : Invariant (s.bindToReplyMessage name msg) := by
  rw [MockSystem.bindToReplyMessage]
  cases hworker : s.mockInstances name with
  | none => exact hs
  | some worker =>
    dsimp only
    cases worker.waitingResponseMessages msg.correlationID with
    | none => exact hs
    | some waiter => exact hs.of_same rfl rfl rfl (registered_waiting hworker rfl)

/-- Frames that hold no consumer that is to be called may go. -/
theorem Invariant.drop {s : MockSystem} (hs : Invariant s) {frame : MockFrame}
    {frames : List MockFrame} (hframes : s.frames = frame :: frames)
    (hsame : pending s.frames = pending frames) : Invariant { s with frames } := by
  refine ⟨⟨hs.unopened, hs.queues, hs.registers⟩, ⟨hs.received, ?_, ?_, ?_, ?_⟩⟩
  · intro name msg hm
    exact hs.calls name msg (by rw [hframes]; exact List.mem_cons_of_mem frame hm)
  · rw [← hsame]
    exact hs.pending_le
  · have htidy := hs.tidy
    rw [hframes] at htidy
    cases frame with
    | call c => exact htidy
    | running msg => exact htidy.2
  · have hdelivered := hs.delivered
    rw [Delivered, hsame] at hdelivered
    exact hdelivered

/-- The first consumer of a topic is the one that its worker calls. -/
theorem Registry.registered_first {s : MockSystem} (hs : Registry s) {name topic : String}
    {consumer : MQConsumerProxy}
    (hfirst : (consumersOn topic s.history).head? = some (name, consumer)) :
    s.registered name topic = some consumer := by
  rw [hs.registers]
  cases hlist : consumersOn topic s.history with
  | nil =>
    rw [hlist] at hfirst
    cases hfirst
  | cons c rest =>
    rw [hlist] at hfirst
    cases hfirst
    rw [List.find?_cons_of_pos (by exact decide_eq_true rfl)]
    rfl

/-- A message that was pending is received by the first consumer of its topic, and by no other. -/
theorem forall₂_received {t name n : String} {consumer p : MQConsumerProxy}
    {h after : List MockOccurrence} {msg : MQConsumerMessage}
    (hfirst : (consumersOn msg.consumerTag h).head? = some (name, consumer))
    (hhead : (consumersOn t h).head? = some (n, p))
    (hafter : List.Forall₂ (Carries t) (publishedOn t after)
      (receivedBy n p t after ++ [msg].filter fun msg => msg.consumerTag = t)) :
    List.Forall₂ (Carries t) (publishedOn t (after ++ [.received name consumer msg]))
      (receivedBy n p t (after ++ [.received name consumer msg])) := by
  have hpublished : publishedOn t (after ++ [.received name consumer msg]) =
      publishedOn t after := (publishedOn_append ..).trans (List.append_nil _)
  rw [hpublished, receivedBy_concat]
  rw [List.filter_singleton] at hafter
  by_cases ht : msg.consumerTag = t
  · subst ht
    cases hfirst.symm.trans hhead
    rw [if_pos ⟨rfl, rfl, rfl⟩]
    rwa [decide_eq_true rfl, cond_true] at hafter
  · rw [if_neg (fun h => ht h.2.2)]
    rwa [decide_eq_false ht, cond_false] at hafter

/-- The consumer that is called is the first one of the topic of the message. -/
theorem Invariant.bindToOnMessage {s s' : MockSystem} (hs : Invariant s) {name : String}
    {msg : MQConsumerMessage} {frames : List MockFrame}
    (hframes : s.frames = .call ⟨.bindToOnMessage name, msg⟩ :: frames)
    (h : ({ s with frames } : MockSystem).bindToOnMessage name msg = some s') : Invariant s' := by
  obtain ⟨consumer, hfirst⟩ := hs.calls name msg (by rw [hframes]; exact List.mem_cons_self)
  have hnone : pending frames = [] := by
    have hle := hs.pending_le
    rw [hframes] at hle
    exact List.eq_nil_of_length_eq_zero (Nat.le_zero.mp (Nat.le_of_succ_le_succ hle))
  have hregistered : (({ s with frames } : MockSystem).mockInstances name).bind
      (fun worker => worker.consumerRegisters msg.consumerTag) = some consumer :=
    hs.toRegistry.registered_first hfirst
  rw [MockSystem.bindToOnMessage, hregistered] at h
  dsimp only at h
  cases hcallback : consumer.callback with
  | none =>
    rw [hcallback] at h
    cases h
  | some address =>
    rw [hcallback] at h
    cases h
    have hpass := passing_received name consumer msg
    have hregistry := hs.toRegistry.record hpass
    refine ⟨⟨hregistry.unopened, hregistry.queues, hregistry.registers⟩,
      ⟨?_, ?_, ?_, ?_, ?_⟩⟩
    · intro n p m hm
      change (consumersOn m.consumerTag (s.history ++ [.received name consumer msg])).head? = _
      rw [hpass.consumersOn_append]
      obtain hm | hm := List.mem_append.mp hm
      · exact hs.received n p m hm
      · cases List.mem_singleton.mp hm
        exact hfirst
    · intro n m hm
      change ∃ p, (consumersOn m.consumerTag (s.history ++ [.received name consumer msg])).head? = _
      rw [hpass.consumersOn_append]
      obtain hm | hm := List.mem_cons.mp hm
      · cases hm
      · exact hs.calls n m (by rw [hframes]; exact List.mem_cons_of_mem _ hm)
    · change (pending frames).length ≤ 1
      rw [hnone]
      exact Nat.zero_le 1
    · have htidy := hs.tidy
      rw [hframes] at htidy
      exact ⟨hnone, htidy⟩
    · refine hs.delivered.concat (fun _ _ _ => MockOccurrence.noConfusion) ?_
      intro t n p after hhead hafter
      have hbefore : pending s.frames = [msg] := by
        rw [hframes]
        exact congrArg (msg :: ·) hnone
      have hafterwards : pending (.running msg :: frames) = [] := hnone
      rw [hbefore] at hafter
      change List.Forall₂ _ _ (_ ++ (pending (.running msg :: frames)).filter _)
      rw [hafterwards, List.filter_nil, List.append_nil]
      exact forall₂_received hfirst hhead hafter

theorem Invariant.send {s s' : MockSystem} (hs : Invariant s) (hidle : s.idle = true)
    {name topic : String} {pm : MQPublishMessage} {withReply : Bool} {uuid : String} {now : ℤ}
    (h : s.send name topic pm withReply uuid now = some s') : Invariant s' := by
  have hpending := pending_of_idle hs.tidy hidle
  rw [MockSystem.send] at h
  cases hworker : s.mockInstances name with
  | none =>
    rw [hworker] at h
    cases h
  | some worker =>
    rw [hworker] at h
    cases withReply with
    | false =>
      cases h
      exact hs.publish hpending topic now pm
    | true =>
      cases h
      have hprepared : Invariant (s.prepareRepliablePubilshMessage name worker pm uuid).1 :=
        hs.of_same rfl rfl rfl (registered_waiting hworker rfl)
      exact hprepared.publish hpending topic now _

theorem step_invariant {s s' : MockSystem} {e : Event} (hs : Invariant s)
    (h : step s e = some s') : Invariant s' := by
  cases e with
  | init name uuid now =>
    rw [step] at h
    split_ifs at h with hidle
    cases h
    exact hs.initMockMQ hidle name uuid now
  | subscribe name topic consumeProxy now =>
    rw [step] at h
    split_ifs at h with hidle
    exact hs.subscribe hidle h
  | send name topic pm withReply uuid now =>
    rw [step] at h
    split_ifs at h with hidle
    exact hs.send hidle h
  | call =>
    rw [step] at h
    cases hframes : s.frames with
    | nil =>
      rw [hframes] at h
      cases h
    | cons frame frames =>
      rw [hframes] at h
      cases frame with
      | running msg => cases h
      | call c =>
        obtain ⟨callback, msg⟩ := c
        cases callback with
        | bindToOnMessage name => exact hs.bindToOnMessage hframes h
        | bindToReplyMessage name =>
          cases h
          have hdrop := hs.drop hframes (by rw [hframes]; rfl)
          exact hdrop.bindToReplyMessage name msg
  | answer resp now =>
    rw [step] at h
    cases hframes : s.frames with
    | nil =>
      rw [hframes] at h
      cases h
    | cons frame frames =>
      rw [hframes] at h
      cases frame with
      | call c => cases h
      | running msg =>
        cases h
        have htidy := hs.tidy
        rw [hframes] at htidy
        have hdrop := hs.drop hframes (by rw [hframes]; rfl)
        cases resp with
        | none => exact hdrop
        | some resp =>
          rw [afterCallback]
          split_ifs with hreply
          · exact hdrop.publish htidy.1 msg.replyTo now resp
          · exact hdrop

/-! ## Runs -/

theorem run_invariant {s s' : MockSystem} {events : List Event} (hs : Invariant s)
    (hrun : run step s events = some s') : Invariant s' := by
  have hguard : Throughout step (fun _ _ => True) s events :=
    throughout_of_forall fun _ _ _ => trivial
  exact hguard.invariant (fun _ _ _ hs _ h => step_invariant hs h) hs hrun

/-- A consumer that is not the first of its topic receives nothing. -/
theorem Delivery.receivedBy_second {s : MockSystem} (hs : Delivery s)
    {before after : List MockOccurrence} {topic name : String} {consumeProxy : MQConsumerProxy}
    (h : s.history = before ++ .subscribed topic name consumeProxy :: after)
    {first : String × MQConsumerProxy} (hhead : (consumersOn topic before).head? = some first)
    (hother : first ≠ (name, consumeProxy)) : receivedBy name consumeProxy topic after = [] := by
  refine List.filterMap_eq_nil_iff.mpr fun o ho => ?_
  cases o with
  | received n p m =>
    refine if_neg ?_
    rintro ⟨rfl, rfl, rfl⟩
    have hmem : MockOccurrence.received n p m ∈ s.history := by
      rw [h]
      exact List.mem_append_right _ (List.mem_cons_of_mem _ ho)
    have hcalled := hs.received n p m hmem
    have hstill := head?_consumersOn_append hhead (.subscribed m.consumerTag n p :: after)
    rw [← h, hcalled] at hstill
    exact hother (Option.some.inj hstill).symm
  | opened | subscribed | published => rfl

/-- What happened to one consumer. -/
theorem Invariant.served_iff {s : MockSystem} (hs : Invariant s) (hidle : s.idle = true)
    {before after : List MockOccurrence} {topic name : String} {consumeProxy : MQConsumerProxy}
    (h : s.history = before ++ .subscribed topic name consumeProxy :: after) :
    List.Forall₂ (Carries topic)
        ((if hasSubscriber topic before then [] else publishedOn topic before) ++
          publishedOn topic after)
        (receivedBy name consumeProxy topic after) ↔
      (hasSubscriber topic before = true ∨ publishedOn topic before = []) ∧
        ∀ first, (consumersOn topic before).head? = some first →
          first = (name, consumeProxy) ∨ publishedOn topic after = [] := by
  have hpending := pending_of_idle hs.tidy hidle
  have hdelivered : (consumersOn topic (before ++ [.subscribed topic name consumeProxy])).head? =
      some (name, consumeProxy) → List.Forall₂ (Carries topic) (publishedOn topic after)
        (receivedBy name consumeProxy topic after) := by
    intro hfirst
    have hboth := hs.delivered before topic name consumeProxy after h hfirst
    rwa [hpending, List.filter_nil, List.append_nil] at hboth
  rw [consumersOn_concat, if_pos rfl, List.head?_append] at hdelivered
  cases hhead : (consumersOn topic before).head? with
  | none =>
    rw [hhead] at hdelivered
    have hserved := hdelivered rfl
    cases hsubscriber : hasSubscriber topic before with
    | true => simpa using hserved
    | false =>
      refine ⟨fun hall => ⟨.inr ?_, fun _ hfirst => by cases hfirst⟩, fun hnone => ?_⟩
      · have hlength := hall.length_eq
        rw [if_neg Bool.false_ne_true, List.length_append, ← hserved.length_eq] at hlength
        exact List.eq_nil_of_length_eq_zero (by omega)
      · rw [if_neg Bool.false_ne_true, hnone.1.resolve_left Bool.false_ne_true]
        exact hserved
  | some first =>
    have hsubscriber : hasSubscriber topic before = true := by
      by_contra hnone
      rw [consumersOn_of_hasSubscriber (eq_false_of_ne_true hnone)] at hhead
      cases hhead
    rw [hhead] at hdelivered
    rw [hsubscriber, if_pos rfl, List.nil_append]
    by_cases hsame : first = (name, consumeProxy)
    · have hserved := hdelivered (congrArg some hsame)
      refine iff_of_true hserved ⟨.inl rfl, fun other hother => ?_⟩
      cases hother
      exact .inl hsame
    · rw [hs.toDelivery.receivedBy_second h hhead hsame, List.forall₂_nil_right_iff]
      refine ⟨fun hnone => ⟨.inl rfl, fun _ _ => .inr hnone⟩, fun hall => ?_⟩
      exact (hall.2 first rfl).resolve_left hsame

/-- The consumers are served just in those runs where no message comes before the first subscriber
of its topic, if one comes, and none after a consumer that is not the first of its topic. -/
theorem run_served_iff (events : List Event) {s : MockSystem} (hrun : run step {} events = some s)
    (hidle : s.idle = true) : Served s.history ↔ Unharmed s.history := by
  have hs := run_invariant invariant_empty hrun
  constructor
  · intro h before topic name consumeProxy after hsplit
    exact (hs.served_iff hidle hsplit).mp (h before topic name consumeProxy after hsplit)
  · intro h before topic name consumeProxy after hsplit
    exact (hs.served_iff hidle hsplit).mpr (h before topic name consumeProxy after hsplit)

/-- One consumer, subscribed before the message. -/
def oneConsumer : List Event :=
  [.init "a" "1" 0, .subscribe "a" "orders" { callback := some 1 } 0,
    .send "a" "orders" { body := [1] } false "" 1, .call, .answer none 2]

theorem run_served_iff_oneConsumer :
    ∃ s, run step {} oneConsumer = some s ∧ (Served s.history ↔ Unharmed s.history) :=
  ⟨_, rfl, run_served_iff oneConsumer rfl rfl⟩

/-- The consumer of a second worker receives nothing, and neither does a first one what was
published before it. -/
theorem run_not_served :
    (∃ s, run step {} [.init "a" "1" 0, .init "b" "2" 0,
        .subscribe "a" "orders" { callback := some 1 } 0,
        .subscribe "b" "orders" { callback := some 2 } 0,
        .send "a" "orders" { body := [1] } false "" 1, .call, .answer none 2] = some s ∧
      s.idle = true ∧ ¬ Served s.history) ∧
    ∃ s, run step {} [.init "a" "1" 0, .send "a" "orders" { body := [1] } false "" 1,
        .subscribe "a" "orders" { callback := some 1 } 2] = some s ∧
      s.idle = true ∧ ¬ Served s.history := by
  refine ⟨⟨_, rfl, rfl, fun h => ?_⟩, _, rfl, rfl, fun h => ?_⟩
  · have hsecond := h [.opened "rpc-1", .opened "rpc-2", .subscribed "orders" "a"
      { callback := some 1 }] "orders" "b" { callback := some 2 } _ rfl
    exact absurd hsecond.length_eq (by decide)
  · have hfirst := h [.opened "rpc-1", .published "orders" { body := [1] }] "orders" "a"
      { callback := some 1 } [] rfl
    exact absurd hfirst.length_eq (by decide)

end MockSystem
end Gocom
