import Gocom.KafkaWaiters

/-!
# Requests and replies

Requests and replies are received by one function, which tells them apart by their
correlation identifier alone. They are kept apart as long as the identifiers of requests are
not waited for and the identifiers that are waited for only come on the private topic.
-/

namespace Gocom

open Runs

/-- A send that has received a packet received one addressed to the topic. -/
def SendPhase.AddressedTo (topic : String) : SendPhase → Prop
  | .received _ _ packet => packet.sendTo = topic
  | .returned _ (some resp) => resp.queue = topic
  | _ => True

namespace KafkaWorker

variable (c : PacketCodec)

/-- Sends are completed by packets for the private topic. -/
structure OnlyReplies (w : KafkaWorker) : Prop where
  senders : ∀ i, (w.senders i).AddressedTo w.privateTopic
  readers : ∀ topic ch packet, w.readers topic = some (ch, packet) →
    topic = w.privateTopic ∧ packet.sendTo = w.privateTopic

/-- From `w` to `v` a packet was given to a consumer of the topic, whose callback, if it has
one, was called. -/
def GivenToConsumer (w v : KafkaWorker) (topic : String) (packet : KafkaPacket) : Prop :=
  ∃ consumerProxy, (topic, consumerProxy) ∈ w.subscribed ∧
    v.consumed = w.consumed ++ (consumerProxy.callback.map fun _ =>
      (consumerProxy, convertKafkaPacketToMQConsumerMessage packet)).toList

/-- A request that was read went to a consumer of its topic. -/
def RequestsConsumed (w v : KafkaWorker) : Event → Prop
  | .read topic data _ _ => topic ≠ w.privateTopic → ∀ packet, packetOf c w data = some packet →
      GivenToConsumer w v topic packet
  | _ => True

/-- A request is not taken for anything else: it does not look like the opening of a topic,
nobody waits for its identifier, and the consumer registered for it is one of its topic. -/
structure RequestClear (w : KafkaWorker) (topic : String) (data : Bytes) (packet : KafkaPacket) :
    Prop where
  isPacket : ¬ RegistersPrivate data
  noWaiter : w.waitResponseMessage packet.correlationId = none
  consumer : ∃ consumerProxy, w.consumerProxy packet = some consumerProxy ∧
    (topic, consumerProxy) ∈ w.subscribed

/-- What is read elsewhere than on the private topic is clearly a request, and what is waited
for is addressed to the private topic. -/
def KeptApart (w : KafkaWorker) : Event → Prop
  | .read topic data _ _ => ∀ packet, packetOf c w data = some packet →
      (topic ≠ w.privateTopic → w.RequestClear topic data packet) ∧
      (¬ RegistersPrivate data → w.waitResponseMessage packet.correlationId ≠ none →
        packet.sendTo = w.privateTopic)
  | _ => True

/-! ## Sends -/

variable {c}

theorem onlyReplies_new (privateTopic groupID contentEncoding msgType : String)
    (useOriginalContent : Bool) : OnlyReplies ((newKafkaWorker privateTopic groupID).configured
      contentEncoding msgType useOriginalContent) :=
  ⟨fun _ => trivial, fun _ _ _ h => (nomatch h)⟩

theorem OnlyReplies.same {w w' : KafkaWorker} (h : OnlyReplies w) (hs : SameWaiters w w') :
    OnlyReplies w' := by
  constructor
  · rw [hs.senders, hs.privateTopic]
    exact h.senders
  · rw [hs.readers, hs.privateTopic]
    exact h.readers

theorem OnlyReplies.setSender {w : KafkaWorker} (h : OnlyReplies w) {i : ℕ} {p : SendPhase}
    (hp : p.AddressedTo w.privateTopic) : OnlyReplies (w.setSender i p) :=
  ⟨forall_setSender h.senders hp, h.readers⟩

theorem OnlyReplies.setReader {w : KafkaWorker} (h : OnlyReplies w) {topic : String}
    {r : Option (ℕ × KafkaPacket)} (hr : ∀ ch packet, r = some (ch, packet) →
      topic = w.privateTopic ∧ packet.sendTo = w.privateTopic) : OnlyReplies (w.setReader topic r) := by
  refine ⟨h.senders, fun topic' ch packet hread => ?_⟩
  rcases of_setReader_eq_some hread with ⟨rfl, hx⟩ | ⟨-, hread⟩
  · exact hr ch packet hx
  · exact h.readers topic' ch packet hread

theorem OnlyReplies.register {w : KafkaWorker} (h : OnlyReplies w) (i : ℕ) (req : SendRequest)
    (now : ℕ) : OnlyReplies (register c w i req now) := by
  rw [KafkaWorker.register]
  cases c.marshal w.useOriginalContent (w.sendPacket req.topic req.publishMsg now) with
  | mk sendBytes err =>
    cases err with
    | some err => exact h.setSender trivial
    | none =>
      dsimp only
      split_ifs
      · refine OnlyReplies.setSender ?_ trivial
        rw [obtainChannel]
        cases w.availableChannels.getLast? <;> exact ⟨h.senders, h.readers⟩
      · exact h.setSender trivial

theorem OnlyReplies.read {w : KafkaWorker} (h : OnlyReplies w) {topic : String} {data : Bytes}
    {result : Option MQPublishMessage} {now : ℕ} (hapart : KeptApart c w (.read topic data result now)) :
    OnlyReplies (bindToOnMessage c w topic data result now) := by
  rw [bindToOnMessage]
  split_ifs with hreg
  · exact h
  · cases hpacket : packetOf c w data with
    | none => exact h
    | some packet =>
      obtain ⟨hrequest, hreply⟩ := hapart packet hpacket
      dsimp only
      rw [onMessage]
      cases hwait : w.waitResponseMessage packet.correlationId with
      | some ch =>
        have hsome : w.waitResponseMessage packet.correlationId ≠ none := by simp [hwait]
        have hdeleted : OnlyReplies { w with
            waitResponseMessage := w.waitResponseMessage.delete packet.correlationId } :=
          ⟨h.senders, h.readers⟩
        refine hdeleted.setReader fun ch' packet' heq => ?_
        cases heq
        refine ⟨?_, hreply hreg hsome⟩
        by_contra htopic
        exact hsome (hrequest htopic).noWaiter
      | none =>
        cases w.consumerProxy packet with
        | none => exact h
        | some consumerProxy => exact h.same (consume_same w consumerProxy packet result now)

theorem step_onlyReplies {w v : KafkaWorker} {e : Event} (h : OnlyReplies w)
    (hapart : KeptApart c w e) (hv : step c w e = some v) : OnlyReplies v := by
  cases e with
  | call i req =>
    obtain ⟨-, rfl⟩ := step_call hv
    rw [openPrivateTopic]
    split_ifs
    · have hopen : OnlyReplies (w.sendOpenChannel w.privateTopic) := ⟨h.senders, h.readers⟩
      exact hopen.setSender trivial
    · exact h.setSender trivial
  | opened i =>
    obtain ⟨req, -, rfl⟩ := step_opened hv
    exact (h.same (subscribe_same w w.privateTopic {})).setSender trivial
  | register i now =>
    obtain ⟨req, -, rfl⟩ := step_register hv
    exact h.register i req now
  | send i =>
    obtain ⟨req, sendBytes, ch, -, rfl⟩ := step_send hv
    refine (h.same (sendWorker_same w req.topic sendBytes)).setSender ?_
    cases ch <;> trivial
  | handOver topic i =>
    obtain ⟨req, ch, packet, hread, -, rfl⟩ := step_handOver hv
    have hdone : OnlyReplies (w.setReader topic none) := h.setReader (by simp)
    exact hdone.setSender (h.readers topic ch packet hread).2
  | recycle i =>
    obtain ⟨req, ch, packet, hi, rfl⟩ := step_recycle hv
    have hpacket := h.senders i
    rw [hi] at hpacket
    have hrecycled : OnlyReplies (w.recycleChannel ch) := ⟨h.senders, h.readers⟩
    exact hrecycled.setSender hpacket
  | subscribe topic consumeProxy =>
    obtain rfl := Option.some.inj hv
    exact h.same (subscribe_same w topic consumeProxy)
  | read topic data result now =>
    obtain ⟨-, rfl⟩ := step_read hv
    exact h.read hapart

/-! ## Requests -/

theorem sendWorker_consumed (w : KafkaWorker) (topic : String) (message : Bytes) :
    (w.sendWorker topic message).consumed = w.consumed := by
  rw [sendWorker]
  cases w.openTopicChannel topic <;> rfl

theorem consume_consumed (w : KafkaWorker) (consumerProxy : MQConsumerProxy) (packet : KafkaPacket)
    (result : Option MQPublishMessage) (now : ℕ) :
    (consume c w consumerProxy packet result now).consumed =
      w.consumed ++ (consumerProxy.callback.map fun _ =>
        (consumerProxy, convertKafkaPacketToMQConsumerMessage packet)).toList := by
  rw [consume]
  cases consumerProxy.callback with
  | none => exact (List.append_nil _).symm
  | some callback =>
    cases result with
    | none => rfl
    | some result =>
      dsimp only
      split_ifs
      · exact sendWorker_consumed _ _ _
      · rfl

/-- A request is given to a consumer of its topic, whose consumers all have callbacks, exactly
when it is clearly a request. -/
theorem givenToConsumer_iff {w : KafkaWorker} {topic : String} {data : Bytes}
    {packet : KafkaPacket} (hpacket : packetOf c w data = some packet)
    (hcallback : ∀ consumerProxy, (topic, consumerProxy) ∈ w.subscribed →
      consumerProxy.callback ≠ none) (result : Option MQPublishMessage) (now : ℕ) :
    GivenToConsumer w (bindToOnMessage c w topic data result now) topic packet ↔
      w.RequestClear topic data packet := by
  have hstay : ∀ v : KafkaWorker, v.consumed = w.consumed → ¬ GivenToConsumer w v topic packet := by
    rintro v hv ⟨consumerProxy, hsub, hconsumed⟩
    obtain ⟨callback, hcb⟩ := Option.ne_none_iff_exists'.mp (hcallback consumerProxy hsub)
    simp [hv, hcb] at hconsumed
  by_cases hreg : RegistersPrivate data
  · refine iff_of_false ?_ fun hclear => hclear.isPacket hreg
    rw [bindToOnMessage, if_pos hreg]
    exact hstay w rfl
  rw [bindToOnMessage, if_neg hreg, hpacket]
  dsimp only
  rw [onMessage]
  cases hwait : w.waitResponseMessage packet.correlationId with
  | some ch =>
    refine iff_of_false (hstay _ rfl) fun hclear => ?_
    have := hclear.noWaiter
    rw [hwait] at this
    cases this
  | none =>
    cases hproxy : w.consumerProxy packet with
    | none =>
      refine iff_of_false (hstay w rfl) fun hclear => ?_
      obtain ⟨consumerProxy, hsome, -⟩ := hclear.consumer
      rw [hproxy] at hsome
      cases hsome
    | some consumerProxy =>
      have hconsumed := consume_consumed (c := c) w consumerProxy packet result now
      constructor
      · rintro ⟨consumerProxy', hsub, hgiven⟩
        have heq := List.append_cancel_left (hconsumed.symm.trans hgiven)
        obtain ⟨callback, hcb⟩ := Option.ne_none_iff_exists'.mp (hcallback consumerProxy' hsub)
        have hsame : consumerProxy = consumerProxy' := by
          cases hcb' : consumerProxy.callback <;> simp [hcb, hcb'] at heq
          exact heq
        exact ⟨hreg, hwait, consumerProxy, hproxy, hsame ▸ hsub⟩
      · intro hclear
        obtain ⟨consumerProxy', hsome, hsub⟩ := hclear.consumer
        obtain rfl := Option.some.inj (hproxy.symm.trans hsome)
        exact ⟨consumerProxy, hsub, hconsumed⟩

theorem step_requestsConsumed {w v : KafkaWorker} {e : Event} (hapart : KeptApart c w e)
    (hv : step c w e = some v) : RequestsConsumed c w v e := by
  cases e with
  | read topic data result now =>
    obtain ⟨-, rfl⟩ := step_read hv
    intro htopic packet hpacket
    obtain ⟨hreg, hwait, consumerProxy, hproxy, hsub⟩ := (hapart packet hpacket).1 htopic
    refine ⟨consumerProxy, hsub, ?_⟩
    simp only [bindToOnMessage, if_neg hreg, hpacket, onMessage, hwait, hproxy]
    exact consume_consumed w consumerProxy packet result now
  | _ => trivial

/-! ## Runs -/

/-- In a run whose requests and replies are kept apart, sends are completed by packets for the
private topic in every state, and every request read goes to a consumer of its topic. -/
theorem run_dispatches (privateTopic groupID contentEncoding msgType : String)
    (useOriginalContent : Bool) {es : List Event} {w : KafkaWorker}
    (hapart : Throughout (step c) (KeptApart c) ((newKafkaWorker privateTopic groupID).configured
      contentEncoding msgType useOriginalContent) es)
    (hrun : run (step c) ((newKafkaWorker privateTopic groupID).configured contentEncoding msgType
      useOriginalContent) es = some w) :
    w.OnlyReplies ∧
      Throughout (step c) (fun w e => ∀ v, step c w e = some v → RequestsConsumed c w v e)
        ((newKafkaWorker privateTopic groupID).configured contentEncoding msgType
          useOriginalContent) es :=
  ⟨hapart.invariant (fun _ _ _ h hg hv => step_onlyReplies h hg hv)
      (onlyReplies_new privateTopic groupID contentEncoding msgType useOriginalContent) hrun,
    hapart.mono fun _ _ hg _ hv => step_requestsConsumed hg hv⟩

def demoConsumer : MQConsumerProxy := { queue := "demo", callback := some 0 }

/-- The packet of a request as it is sent at the start. -/
def demoPacket : KafkaPacket := (newKafkaWorker "rpc" "").sendPacket "demo" { correlationID := "1" } 0

def otherPacket : KafkaPacket := { demoPacket with correlationId := "2" }

/-- A worker that consumes the topic it sends to, while its send waits. -/
theorem run_dispatches_otherRequest :
    ∃ w, run (step (tableCodec [otherPacket, demoReply]))
        ((newKafkaWorker "rpc" "").configured "" "" false)
        [.subscribe "demo" demoConsumer, .call 0 (demoRequest "1"), .opened 0, .register 0 0, .send 0,
          .read "demo" (wirePacket otherPacket) none 0, .read "rpc" (wirePacket demoReply) none 0,
          .handOver "rpc" 0] = some w ∧
      w.OnlyReplies ∧ w.consumed = [(demoConsumer, convertKafkaPacketToMQConsumerMessage otherPacket)] := by
  have hapart : Throughout (step (tableCodec [otherPacket, demoReply]))
      (KeptApart (tableCodec [otherPacket, demoReply]))
      ((newKafkaWorker "rpc" "").configured "" "" false)
      [.subscribe "demo" demoConsumer, .call 0 (demoRequest "1"), .opened 0, .register 0 0, .send 0,
        .read "demo" (wirePacket otherPacket) none 0, .read "rpc" (wirePacket demoReply) none 0,
        .handOver "rpc" 0] := by
    refine .cons trivial rfl (.cons trivial rfl (.cons trivial rfl (.cons trivial rfl
      (.cons trivial rfl (.cons ?_ rfl (.cons ?_ rfl (.cons trivial rfl trivial)))))))
    · intro packet hpacket
      obtain rfl : otherPacket = packet := Option.some.inj hpacket
      exact ⟨fun _ => ⟨by decide, rfl, demoConsumer, rfl, .head _⟩, fun _ hwait => absurd rfl hwait⟩
    · intro packet hpacket
      obtain rfl : demoReply = packet := Option.some.inj hpacket
      exact ⟨fun htopic => absurd rfl htopic, fun _ _ => rfl⟩
  exact ⟨_, rfl, (run_dispatches "rpc" "" "" "" false hapart rfl).1, rfl⟩

/-- The request of a send comes back on a topic the worker consumes, and completes the send. -/
theorem run_not_dispatches :
    ∃ w, run (step (tableCodec [demoPacket])) ((newKafkaWorker "rpc" "").configured "" "" false)
        [.subscribe "demo" demoConsumer, .call 0 (demoRequest "1"), .opened 0, .register 0 0, .send 0,
          .read "demo" (wirePacket demoPacket) none 0, .handOver "demo" 0] = some w ∧
      ¬ w.OnlyReplies ∧ w.consumed = [] := by
  refine ⟨_, rfl, fun h => ?_, rfl⟩
  have hdemo : "demo" = "rpc" := h.senders 0
  exact absurd hdemo (by decide)

end KafkaWorker
end Gocom
