import Gocom.GuardedRuns
import Gocom.JobPools
import Gocom.PulsarInstance

/-!
# The goroutines of a Pulsar instance

The loop of the instance, the attempts to connect and the callbacks publish and consume at the same
time. Each is a queue of tasks, and a task goes as far as the next place where another goroutine can
interfere: looking at the client, keeping what cannot go out, looking for a producer, creating one,
sending. A function of the instance is what its tasks do when nothing comes between them.

Every message is at every moment with a goroutine, waiting, sent or refused a producer, and once
only.
-/

namespace Gocom
namespace PulsarMQ

variable {σ : Type*} (b : PulsarBroker σ)

/-- What a goroutine does next for a message or a consumer. -/
inductive Task where
  | publish (m : ℕ)
  | keepPublish (m : ℕ)
  | findProducer (m : ℕ)
  | createProducer (m : ℕ)
  | send (m : ℕ)
  | consume (cm : MQConsumerProxy)
  | keepConsumer (cm : MQConsumerProxy)
  | findConsumer (cm : MQConsumerProxy)
  | subscribe (cm : MQConsumerProxy)
  | sweepConsumers
  | sweepPublishes

/-- One task, and what is left to do of it. -/
def perform (r : PulsarMQ σ) : Task → Option (PulsarMQ σ × List Task)
  | .publish m => some (r, [if r.client = false then .keepPublish m else .findProducer m])
  | .keepPublish m => some ({ r with pendingPublishes := r.pendingPublishes ++ [m] }, [])
  | .findProducer m =>
    if "" = r.topicOf m then some ({ r with rejected := r.rejected ++ [m] }, [])
    else some (r, [if r.topicOf m ∈ r.producers then .send m else .createProducer m])
  | .createProducer m =>
    match createProducer b r (r.topicOf m) with
    | none => none
    | some (r, some _) => some ({ r with rejected := r.rejected ++ [m] }, [])
    | some (r, none) => some (r, [.send m])
  | .send m => (handOver b r m (r.topicOf m)).map fun r => (r, [])
  | .consume cm => some (r, [if r.client = false then .keepConsumer cm else .findConsumer cm])
  | .keepConsumer cm => some ({ r with pendingConsumers := r.pendingConsumers ++ [cm] }, [])
  | .findConsumer cm =>
    if r.prepareTopicName cm.queue ∈ r.consumers.map Prod.fst then
      some (r.attach (r.prepareTopicName cm.queue) cm, [])
    else some (r, [.subscribe cm])
  | .subscribe cm => (PulsarMQ.subscribe b r (r.prepareTopicName cm.queue) cm).map fun p => (p.1, [])
  | .sweepConsumers => some ({ r with pendingConsumers := [] }, r.pendingConsumers.map .consume)
  | .sweepPublishes => some ({ r with pendingPublishes := [] }, r.pendingPublishes.map .publish)

/-! ## Uninterrupted tasks -/

/-- A goroutine that nothing interferes with. -/
inductive Alone : PulsarMQ σ × List Task → PulsarMQ σ × List Task → Prop where
  | refl (s) : Alone s s
  | step {r r' : PulsarMQ σ} {t : Task} {new rest : List Task} {s : PulsarMQ σ × List Task}
      (h : perform b r t = some (r', new)) (tail : Alone (r', new ++ rest) s) : Alone (r, t :: rest) s

theorem Alone.trans {s t u : PulsarMQ σ × List Task} (h : Alone b s t) (h' : Alone b t u) :
    Alone b s u := by
  induction h with
  | refl s => exact h'
  | step hp _ ih => exact .step hp (ih h')

theorem alone_publish {r r' : PulsarMQ σ} {m : ℕ} {err : Option String}
    (h : PulsarMQ.publish b r m = some (r', err)) (rest : List Task) :
    Alone b (r, .publish m :: rest) (r', rest) := by
  rw [PulsarMQ.publish] at h
  by_cases hclient : r.client = false
  · rw [if_pos hclient] at h
    cases h
    have hlook : perform b r (.publish m) = some (r, [.keepPublish m]) := by rw [perform, if_pos hclient]
    exact .step hlook (.step rfl (.refl _))
  · rw [if_neg hclient, ensureProducer] at h
    have hlook : perform b r (.publish m) = some (r, [.findProducer m]) := by rw [perform, if_neg hclient]
    refine .step hlook ?_
    -- sending is the last task wherever the producer is from
    have hsend : ∀ {s s' : PulsarMQ σ}, (handOver b s m (s.topicOf m)).map (fun r => (r, none)) = some (s', err) →
        Alone b (s, .send m :: rest) (s', rest) := by
      intro s s' hs
      obtain ⟨r₂, hover, heq⟩ := Option.map_eq_some_iff.mp hs
      cases heq
      have hlast : perform b s (.send m) = some (s', []) := by rw [perform, hover]; rfl
      exact .step hlast (.refl _)
    by_cases hempty : "" = r.topicOf m
    · rw [if_pos hempty] at h
      cases h
      have hfind : perform b r (.findProducer m) = some ({ r with rejected := r.rejected ++ [m] }, []) := by
        rw [perform, if_pos hempty]
      exact .step hfind (.refl _)
    · rw [if_neg hempty] at h
      by_cases hfound : r.topicOf m ∈ r.producers
      · rw [if_pos hfound] at h
        have hfind : perform b r (.findProducer m) = some (r, [.send m]) := by
          rw [perform, if_neg hempty, if_pos hfound]
        exact .step hfind (hsend h)
      · rw [if_neg hfound] at h
        have hfind : perform b r (.findProducer m) = some (r, [.createProducer m]) := by
          rw [perform, if_neg hempty, if_neg hfound]
        refine .step hfind ?_
        cases hcreate : PulsarMQ.createProducer b r (r.topicOf m) with
        | none => rw [hcreate] at h; cases h
        | some p =>
          obtain ⟨r₁, result⟩ := p
          rw [hcreate] at h
          cases result with
          | some e =>
            cases h
            have hrefused : perform b r (.createProducer m) =
                some ({ r₁ with rejected := r₁.rejected ++ [m] }, []) := by rw [perform, hcreate]
            exact .step hrefused (.refl _)
          | none =>
            have hcreated : perform b r (.createProducer m) = some (r₁, [.send m]) := by
              rw [perform, hcreate]
            exact .step hcreated (hsend h)

theorem alone_consume {r r' : PulsarMQ σ} {cm : MQConsumerProxy} {err : Option String}
    (h : PulsarMQ.consume b r cm = some (r', err)) (rest : List Task) :
    Alone b (r, .consume cm :: rest) (r', rest) := by
  rw [PulsarMQ.consume] at h
  by_cases hclient : r.client = false
  · rw [if_pos hclient] at h
    cases h
    have hlook : perform b r (.consume cm) = some (r, [.keepConsumer cm]) := by rw [perform, if_pos hclient]
    exact .step hlook (.step rfl (.refl _))
  · rw [if_neg hclient] at h
    have hlook : perform b r (.consume cm) = some (r, [.findConsumer cm]) := by rw [perform, if_neg hclient]
    refine .step hlook ?_
    by_cases hfound : r.prepareTopicName cm.queue ∈ r.consumers.map Prod.fst
    · rw [if_pos hfound] at h
      cases h
      have hfind : perform b r (.findConsumer cm) = some (r.attach (r.prepareTopicName cm.queue) cm, []) := by
        rw [perform, if_pos hfound]
      exact .step hfind (.refl _)
    · rw [if_neg hfound] at h
      have hfind : perform b r (.findConsumer cm) = some (r, [.subscribe cm]) := by
        rw [perform, if_neg hfound]
      have hlast : perform b r (.subscribe cm) = some (r', []) := by rw [perform, h]; rfl
      exact .step hfind (.step hlast (.refl _))

/-- One function after the other, for a list of arguments. -/
theorem alone_foldlM {ι : Type*} {f : PulsarMQ σ → ι → Option (PulsarMQ σ × Option String)}
    {task : ι → Task}
    (hf : ∀ r r' x err, f r x = some (r', err) → ∀ rest, Alone b (r, task x :: rest) (r', rest))
    {xs : List ι} {r r' : PulsarMQ σ} (h : xs.foldlM (fun r x => (f r x).map Prod.fst) r = some r')
    (rest : List Task) : Alone b (r, xs.map task ++ rest) (r', rest) := by
  induction xs generalizing r with
  | nil =>
    cases h
    exact .refl _
  | cons x xs ih =>
    rw [List.foldlM_cons] at h
    obtain ⟨r₁, hx, hxs⟩ := Option.bind_eq_some_iff.mp h
    obtain ⟨p, hp, rfl⟩ := Option.map_eq_some_iff.mp hx
    exact (hf r p.1 x p.2 hp _).trans b (ih hxs)

/-- `ensurePendings` sweeps the consumers, then the messages. -/
theorem alone_ensurePendings {r r' : PulsarMQ σ} (h : ensurePendings b r = some r') (rest : List Task) :
    Alone b (r, .sweepConsumers :: .sweepPublishes :: rest) (r', rest) := by
  obtain ⟨r₁, hconsumers, hpublishes⟩ := Option.bind_eq_some_iff.mp h
  have hsweep : perform b r .sweepConsumers =
    some ({ r with pendingConsumers := [] }, r.pendingConsumers.map .consume) := rfl
  have hsweep' : perform b r₁ .sweepPublishes =
    some ({ r₁ with pendingPublishes := [] }, r₁.pendingPublishes.map .publish) := rfl
  refine .step hsweep ((alone_foldlM b ?_ hconsumers _).trans b (.step hsweep' (alone_foldlM b ?_ hpublishes rest)))
  · exact fun r r' cm err hcm rest => alone_consume b hcm rest
  · exact fun r r' m err hm rest => alone_publish b hm rest

/-! ## What a task does to the books -/

/-- The message a task is for. -/
def Task.message? : Task → Option ℕ
  | .publish m | .keepPublish m | .findProducer m | .createProducer m | .send m => some m
  | _ => none

/-- The consumer a task is for. -/
def Task.consumer? : Task → Option MQConsumerProxy
  | .consume cm | .keepConsumer cm | .findConsumer cm | .subscribe cm => some cm
  | _ => none

/-- Where messages and consumers are kept. -/
structure Books where
  client : Bool
  pendingPublishes : List ℕ
  sent : List SentMessage
  rejected : List ℕ
  pendingConsumers : List MQConsumerProxy
  consumers : List (String × MQConsumerProxy)
  attached : List (String × MQConsumerProxy)
  refused : List MQConsumerProxy

def books (r : PulsarMQ σ) : Books :=
  ⟨r.client, r.pendingPublishes, r.sent, r.rejected, r.pendingConsumers, r.consumers, r.attached,
    r.refused⟩

/-- Finding a producer changes the producers at most. -/
theorem createProducer_frame {r r' : PulsarMQ σ} {topicName : String} {err : Option String}
    (h : PulsarMQ.createProducer b r topicName = some (r', err)) :
    ∃ env producers, r' = { r with env, producers } := by
  rw [PulsarMQ.createProducer] at h
  split_ifs at h with hclient
  cases hc : b.createProducer r.env topicName with
  | mk env result =>
    rw [hc] at h
    cases result <;> cases h <;> exact ⟨env, _, rfl⟩

theorem ensureProducer_frame {r r' : PulsarMQ σ} {topicName : String} {err : Option String}
    (h : ensureProducer b r topicName = some (r', err)) : ∃ env producers, r' = { r with env, producers } := by
  rw [ensureProducer] at h
  split_ifs at h with hempty hfound
  · cases h
    exact ⟨r.env, r.producers, rfl⟩
  · cases h
    exact ⟨r.env, r.producers, rfl⟩
  · exact createProducer_frame b h

theorem publishTrackerMQMessage_frame {r r' : PulsarMQ σ} {pm : MQPublishMessage} {typ : String}
    (h : publishTrackerMQMessage b r pm typ = some r') : ∃ env producers, r' = { r with env, producers } := by
  rw [publishTrackerMQMessage] at h
  split_ifs at h with htracker
  · cases h
    exact ⟨r.env, r.producers, rfl⟩
  · cases hp : ensureProducer b r (r.prepareTopicName r.trackerQueue) with
    | none => simp only [hp, reduceCtorEq] at h
    | some p =>
      obtain ⟨r₁, result⟩ := p
      obtain ⟨env, producers, rfl⟩ := ensureProducer_frame b hp
      simp only [hp] at h
      cases result <;> cases h <;> exact ⟨_, producers, rfl⟩

theorem afterPublish_frame {r r' : PulsarMQ σ} {m : ℕ} {pm : MQPublishMessage}
    (h : afterPublish b r m pm = some r') :
    ∃ env producers pendingReplies statuses, r' = { r with env, producers, pendingReplies, statuses } := by
  rw [afterPublish] at h
  obtain ⟨r₁, htracked, rfl⟩ := Option.map_eq_some_iff.mp h
  have hframe : ∃ env producers pendingReplies, r₁ = { r with env, producers, pendingReplies } := by
    split_ifs at htracked with hid
    · obtain ⟨env, producers, rfl⟩ := publishTrackerMQMessage_frame b htracked
      rw [answerReplyNeededMessage, if_pos hid]
      exact ⟨env, producers, _, rfl⟩
    · cases htracked
      exact ⟨r.env, r.producers, r.pendingReplies, rfl⟩
  obtain ⟨env, producers, pendingReplies, rfl⟩ := hframe
  split_ifs
  · exact ⟨env, producers, pendingReplies, _, rfl⟩
  · exact ⟨env, producers, pendingReplies, r.statuses, rfl⟩

/-- Making a message answerable changes the RPC instance and the messages. -/
theorem ensureResponse_frame (r : PulsarMQ σ) (m : ℕ) :
    ∃ env rpc messages, ensureResponse b r m = { r with env, rpc, messages } := by
  rw [ensureResponse]
  split_ifs with hresponse
  · exact ⟨r.env, r.rpc, r.messages, rfl⟩
  · rw [getRPCInstance]
    cases r.rpc with
    | some rpc => exact ⟨_, _, _, rfl⟩
    | none =>
      cases b.rpcName r.env with
      | mk env name => cases name <;> exact ⟨_, _, _, rfl⟩

/-- Sending a message records it and nothing else. -/
theorem handOver_books {r r' : PulsarMQ σ} {m : ℕ} {topicName : String}
    (h : handOver b r m topicName = some r') :
    r'.books = { r.books with
      sent := r.books.sent ++ [⟨m, topicName, producerMessage ((ensureResponse b r m).messages m)⟩] } := by
  rw [handOver] at h
  obtain ⟨env, producers, pendingReplies, statuses, rfl⟩ := afterPublish_frame b h
  obtain ⟨env', rpc, messages, hresponse⟩ := ensureResponse_frame b r m
  rw [hresponse]
  rfl

theorem subscribe_books {r r' : PulsarMQ σ} {topicName : String} {cm : MQConsumerProxy}
    {err : Option String} (h : PulsarMQ.subscribe b r topicName cm = some (r', err)) :
    r'.books = { r.books with refused := r.books.refused ++ [cm] } ∨
      r'.books = { r.books with
        consumers := r.books.consumers.filter (fun p => p.1 ≠ topicName) ++ [(topicName, cm)]
        attached := r.books.attached ++ [(topicName, cm)] } := by
  rw [PulsarMQ.subscribe] at h
  split_ifs at h with hclient
  cases ho : consumerOptions b r topicName cm with
  | mk env options =>
    cases hs : b.subscribe env options with
    | mk env result =>
      simp only [ho, hs] at h
      cases result with
      | some e =>
        cases h
        exact .inl rfl
      | none =>
        cases h
        exact .inr rfl

/-- Where the messages are that no goroutine has. -/
def Books.messages (bk : Books) : List ℕ :=
  bk.pendingPublishes ++ bk.sent.map SentMessage.message ++ bk.rejected

/-- Where the consumers are that no goroutine has. -/
def Books.callbacks (bk : Books) : List MQConsumerProxy :=
  bk.pendingConsumers ++ bk.attached.map Prod.snd ++ bk.refused

/-- What a list of tasks brings to the books, or may. -/
def messagesOf (ts : List Task) : List ℕ := ts.filterMap Task.message?

def consumersOf (ts : List Task) : List MQConsumerProxy := ts.filterMap Task.consumer?

@[simp] theorem messagesOf_nil : messagesOf [] = [] := rfl

@[simp] theorem consumersOf_nil : consumersOf [] = [] := rfl

theorem messagesOf_of_none {t : Task} (h : t.message? = none) : messagesOf [t] = [] := by
  rw [messagesOf, List.filterMap_cons_none h, List.filterMap_nil]

theorem consumersOf_of_none {t : Task} (h : t.consumer? = none) : consumersOf [t] = [] := by
  rw [consumersOf, List.filterMap_cons_none h, List.filterMap_nil]

theorem messagesOf_publish (ms : List ℕ) : messagesOf (ms.map .publish) = ms := by
  rw [messagesOf, List.filterMap_map]
  exact List.filterMap_some

theorem consumersOf_consume (cms : List MQConsumerProxy) : consumersOf (cms.map .consume) = cms := by
  rw [consumersOf, List.filterMap_map]
  exact List.filterMap_some

theorem messagesOf_consume (cms : List MQConsumerProxy) : messagesOf (cms.map .consume) = [] := by
  rw [messagesOf, List.filterMap_map]
  exact List.filterMap_eq_nil_iff.mpr fun _ _ => rfl

theorem consumersOf_publish (ms : List ℕ) : consumersOf (ms.map .publish) = [] := by
  rw [consumersOf, List.filterMap_map]
  exact List.filterMap_eq_nil_iff.mpr fun _ _ => rfl

/-- What a task does to the books, and what is left of it. -/
inductive Effect (bk : Books) (t : Task) : List Task → Books → Prop where
  | message {m : ℕ} {new : List Task} (ht : t.message? = some m) (hm : messagesOf new = [m])
      (hc : consumersOf new = []) : Effect bk t new bk
  | keepPublish {m : ℕ} (ht : t = .keepPublish m) :
      Effect bk t [] { bk with pendingPublishes := bk.pendingPublishes ++ [m] }
  | send {h : SentMessage} (ht : t = .send h.message) : Effect bk t [] { bk with sent := bk.sent ++ [h] }
  | reject {m : ℕ} (ht : t = .findProducer m ∨ t = .createProducer m) :
      Effect bk t [] { bk with rejected := bk.rejected ++ [m] }
  | consumer {cm : MQConsumerProxy} {new : List Task} (ht : t.consumer? = some cm)
      (hc : consumersOf new = [cm]) (hm : messagesOf new = []) : Effect bk t new bk
  | keepConsumer {cm : MQConsumerProxy} (ht : t = .keepConsumer cm) :
      Effect bk t [] { bk with pendingConsumers := bk.pendingConsumers ++ [cm] }
  | refuse {cm : MQConsumerProxy} (ht : t = .subscribe cm) :
      Effect bk t [] { bk with refused := bk.refused ++ [cm] }
  | attach {cm : MQConsumerProxy} {topicName : String} (ht : t = .findConsumer cm)
      (htopic : topicName ∈ bk.consumers.map Prod.fst) :
      Effect bk t [] { bk with attached := bk.attached ++ [(topicName, cm)] }
  | subscribe {cm : MQConsumerProxy} {topicName : String} (ht : t = .subscribe cm) :
      Effect bk t [] { bk with
        consumers := bk.consumers.filter (fun p => p.1 ≠ topicName) ++ [(topicName, cm)]
        attached := bk.attached ++ [(topicName, cm)] }
  | sweepConsumers (ht : t = .sweepConsumers) :
      Effect bk t (bk.pendingConsumers.map .consume) { bk with pendingConsumers := [] }
  | sweepPublishes (ht : t = .sweepPublishes) :
      Effect bk t (bk.pendingPublishes.map .publish) { bk with pendingPublishes := [] }

theorem perform_effect {r r' : PulsarMQ σ} {t : Task} {new : List Task}
    (h : perform b r t = some (r', new)) : Effect r.books t new r'.books := by
  cases t with
  | publish m =>
    cases h
    refine .message rfl ?_ ?_ <;> split_ifs <;> rfl
  | keepPublish m =>
    cases h
    exact .keepPublish rfl
  | findProducer m =>
    rw [perform] at h
    split_ifs at h <;> cases h
    · exact .reject (.inl rfl)
    · exact .message rfl rfl rfl
    · exact .message rfl rfl rfl
  | createProducer m =>
    rw [perform] at h
    cases hc : PulsarMQ.createProducer b r (r.topicOf m) with
    | none => rw [hc] at h; cases h
    | some p =>
      obtain ⟨r₁, result⟩ := p
      obtain ⟨env, producers, rfl⟩ := createProducer_frame b hc
      rw [hc] at h
      cases result <;> cases h
      · exact .message rfl rfl rfl
      · exact .reject (.inr rfl)
  | send m =>
    obtain ⟨r₁, hover, heq⟩ := Option.map_eq_some_iff.mp h
    cases heq
    rw [handOver_books b hover]
    exact .send rfl
  | consume cm =>
    cases h
    refine .consumer rfl ?_ ?_ <;> split_ifs <;> rfl
  | keepConsumer cm =>
    cases h
    exact .keepConsumer rfl
  | findConsumer cm =>
    rw [perform] at h
    split_ifs at h with hfound <;> cases h
    · exact .attach rfl hfound
    · exact .consumer rfl rfl rfl
  | subscribe cm =>
    obtain ⟨⟨r₁, err⟩, hsub, heq⟩ := Option.map_eq_some_iff.mp h
    cases heq
    rcases subscribe_books b hsub with hrefused | hattached
    · exact hrefused ▸ .refuse rfl
    · exact hattached ▸ .subscribe rfl
  | sweepConsumers =>
    cases h
    exact .sweepConsumers rfl
  | sweepPublishes =>
    cases h
    exact .sweepPublishes rfl

theorem Task.message?_of_producing {t : Task} {m : ℕ} (h : t = .findProducer m ∨ t = .createProducer m) :
    t.message? = some m := by
  rcases h with rfl | rfl <;> rfl

theorem messagesOf_of_consumer {t : Task} {cm : MQConsumerProxy} (h : t.consumer? = some cm) :
    messagesOf [t] = [] := by
  cases t <;> first | rfl | cases h

theorem consumersOf_of_message {t : Task} {m : ℕ} (h : t.message? = some m) : consumersOf [t] = [] := by
  cases t <;> first | rfl | cases h

theorem messagesOf_of_message {t : Task} {m : ℕ} (h : t.message? = some m) : messagesOf [t] = [m] := by
  rw [messagesOf, List.filterMap_cons_some h, List.filterMap_nil]

theorem consumersOf_of_consumer {t : Task} {cm : MQConsumerProxy} (h : t.consumer? = some cm) :
    consumersOf [t] = [cm] := by
  rw [consumersOf, List.filterMap_cons_some h, List.filterMap_nil]

/-- No message is lost or made by a task. -/
theorem Effect.messages_perm {bk bk' : Books} {t : Task} {new : List Task} (h : Effect bk t new bk') :
    (messagesOf new ++ bk'.messages).Perm (messagesOf [t] ++ bk.messages) := by
  refine List.perm_iff_count.mpr fun a => ?_
  cases h with
  | message ht hm hc => rw [hm, messagesOf_of_message ht]
  | consumer ht hc hm => rw [hm, messagesOf_of_consumer ht]
  | keepPublish ht | send ht =>
    subst ht
    rw [messagesOf_of_message rfl]
    simp only [messagesOf_nil, Books.messages, List.map_append, List.map_singleton, List.count_append,
      List.count_nil]
    omega
  | reject ht =>
    have hmessage := messagesOf_of_message (Task.message?_of_producing ht)
    simp only [hmessage, messagesOf_nil, Books.messages, List.count_append, List.count_nil]
    omega
  | keepConsumer ht | refuse ht | subscribe ht =>
    subst ht
    rfl
  | attach ht htopic =>
    subst ht
    rfl
  | sweepConsumers ht =>
    subst ht
    rw [messagesOf_consume]
    rfl
  | sweepPublishes ht =>
    subst ht
    rw [messagesOf_publish, messagesOf_of_none rfl]
    simp [Books.messages]

/-- No consumer is lost or made by a task. -/
theorem Effect.callbacks_perm {bk bk' : Books} {t : Task} {new : List Task} (h : Effect bk t new bk') :
    (consumersOf new ++ bk'.callbacks).Perm (consumersOf [t] ++ bk.callbacks) := by
  refine List.perm_iff_count.mpr fun a => ?_
  cases h with
  | message ht hm hc => rw [hc, consumersOf_of_message ht]
  | consumer ht hc hm => rw [hc, consumersOf_of_consumer ht]
  | keepPublish ht | send ht =>
    subst ht
    rfl
  | reject ht => rcases ht with rfl | rfl <;> rfl
  | keepConsumer ht | refuse ht | subscribe ht =>
    subst ht
    rw [consumersOf_of_consumer rfl]
    simp only [consumersOf_nil, Books.callbacks, List.count_append, List.count_nil, List.map_append,
      List.map_singleton]
    omega
  | attach ht htopic =>
    subst ht
    rw [consumersOf_of_consumer rfl]
    simp only [consumersOf_nil, Books.callbacks, List.count_append, List.count_nil, List.map_append,
      List.map_singleton]
    omega
  | sweepConsumers ht =>
    subst ht
    rw [consumersOf_consume, consumersOf_of_none rfl]
    simp [Books.callbacks]
  | sweepPublishes ht =>
    subst ht
    rw [consumersOf_publish]
    rfl

/-! ## The system -/

/-- The instance, the queues of its goroutines, what they have been given so far, and whether what
waited has been swept since the client was last connected. -/
structure System (σ : Type*) where
  shared : PulsarMQ σ
  pool : List (List Task) := []
  taken : List Task := []
  swept : Bool := false
  panicked : Bool := false

/-- A message or a consumer comes to a goroutine, a goroutine performs its next task, the loop finds
that there is no client, an attempt to connect succeeds, the connection ends or is closed. -/
inductive Interleaving where
  | publish (m : ℕ)
  | consume (cm : MQConsumerProxy)
  | move (i : ℕ)
  | reconnect
  | connected
  | done
  | close

def System.take (s : System σ) (t : Task) : System σ :=
  { s with pool := s.pool ++ [[t]], taken := s.taken ++ [t] }

def Task.sweeps : Task → Bool
  | .sweepPublishes => true
  | _ => false

def move (s : System σ) (i : ℕ) : Option (System σ) :=
  match s.pool[i]? with
  | some (t :: rest) =>
    match perform b s.shared t with
    | none => some { s with panicked := true }
    | some (r, new) =>
      some { s with shared := r, pool := JobPools.replace s.pool i new rest, swept := s.swept || t.sweeps }
  | _ => none

def act (s : System σ) : Interleaving → Option (System σ)
  | .publish m => some (s.take (.publish m))
  | .consume cm => some (s.take (.consume cm))
  | .move i => move b s i
  | .reconnect =>
    if s.shared.connecting = false ∧ s.shared.client = false then
      some { s with shared := PulsarMQ.reconnect b s.shared }
    else none
  | .connected =>
    if 0 < s.shared.dialing then
      some { s with
        shared := s.shared.connected
        pool := s.pool ++ [[.sweepConsumers, .sweepPublishes]]
        swept := false }
    else none
  | .done => some (if s.shared.connecting = false then { s with shared := s.shared.close } else s)
  | .close => some { s with shared := s.shared.close }

/-- Nothing happens after a panic. -/
def step (s : System σ) (e : Interleaving) : Option (System σ) :=
  if s.panicked then none else act b s e

/-- The instance as `InitPulsarMQ` leaves it. -/
def start (env : σ) (name driver path : String) (config : PulsarConfig) (trackerQueue : String)
    (messages : ℕ → MQPublishMessage) : System σ :=
  { shared := init b (newPulsarMQ env name driver path config trackerQueue messages) }

end PulsarMQ
end Gocom
