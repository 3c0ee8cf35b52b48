import Gocom.GuardedRuns
import Gocom.Outbox
import Gocom.RabbitInstance
import Mathlib.Tactic.ByContra
import Mathlib.Tactic.SplitIfs

/-!
# What becomes of published messages

The pending list and the record of what was handed to the channel form an outbox, and every
round of the loop advances it, except when publishing has to declare the queue and cannot:
the message then comes back with an error that the loop drops.
-/

namespace Gocom
namespace RabbitMQ

open Runs

variable {σ : Type*} (b : Broker σ)

/-! ## A channel with a declared queue -/

def Ready (r : RabbitMQ σ) : Prop := r.channel = true ∧ r.queueInfo.name ≠ ""

def outbox (r : RabbitMQ σ) : Outbox ℕ := ⟨r.pendingPublishes, r.handed.map Handed.message⟩

/-- From `r` to `r'` the messages `sent` were handed over and nothing else moved. -/
structure Sends (r r' : RabbitMQ σ) (sent : List ℕ) : Prop where
  conn : r'.conn = r.conn
  channel : r'.channel = r.channel
  queueInfo : r'.queueInfo = r.queueInfo
  pending : r'.pendingPublishes = r.pendingPublishes
  handed : r'.handed.map Handed.message = r.handed.map Handed.message ++ sent

theorem Sends.refl (r : RabbitMQ σ) : Sends r r [] := ⟨rfl, rfl, rfl, rfl, by simp⟩

theorem Sends.trans {r r' r'' : RabbitMQ σ} {xs ys : List ℕ} (h : Sends r r' xs)
    (h' : Sends r' r'' ys) : Sends r r'' (xs ++ ys) where
  conn := h'.conn.trans h.conn
  channel := h'.channel.trans h.channel
  queueInfo := h'.queueInfo.trans h.queueInfo
  pending := h'.pending.trans h.pending
  handed := by rw [h'.handed, h.handed, List.append_assoc]

theorem Sends.trans_nil {r r' r'' : RabbitMQ σ} {xs : List ℕ} (h : Sends r r' xs)
    (h' : Sends r' r'' []) : Sends r r'' xs := by
  have := h.trans h'
  rwa [List.append_nil] at this

theorem Sends.ready {r r' : RabbitMQ σ} {xs : List ℕ} (h : Sends r r' xs) (hr : r.Ready) :
    r'.Ready := ⟨h.channel.trans hr.1, h.queueInfo ▸ hr.2⟩

theorem ensureResponse_sends (r : RabbitMQ σ) (m : ℕ) : Sends r (ensureResponse b r m) [] := by
  rw [ensureResponse]
  split_ifs with hresp
  · exact Sends.refl r
  · cases hrpc : r.rpc with
    | some rpc =>
      simp only [getRPCInstance, hrpc]
      exact ⟨rfl, rfl, rfl, rfl, by simp⟩
    | none =>
      cases hq : b.rpcQueue r.env with
      | mk env queueName =>
        cases queueName with
        | none =>
          simp only [getRPCInstance, hrpc, hq]
          exact ⟨rfl, rfl, rfl, rfl, by simp⟩
        | some queueName =>
          simp only [getRPCInstance, hrpc, hq]
          exact ⟨rfl, rfl, rfl, rfl, by simp⟩

theorem publishTrackerMQMessage_sends (r : RabbitMQ σ) (pm : MQPublishMessage) (typ : String) :
    Sends r (publishTrackerMQMessage b r pm typ) [] := by
  rw [publishTrackerMQMessage]
  split_ifs <;> exact ⟨rfl, rfl, rfl, rfl, by simp⟩

theorem answerReplyNeededMessage_sends (r : RabbitMQ σ) (correlationID : String) :
    Sends r (r.answerReplyNeededMessage correlationID) [] := by
  rw [answerReplyNeededMessage]
  split_ifs <;> exact ⟨rfl, rfl, rfl, rfl, by simp⟩

theorem afterPublish_sends (r : RabbitMQ σ) (m : ℕ) (pm : MQPublishMessage)
    (err : Option String) : Sends r (afterPublish b r m pm err) [] := by
  have hanswer : Sends r (if "" ≠ pm.correlationID then
      publishTrackerMQMessage b (r.answerReplyNeededMessage pm.correlationID) pm "2" else r) [] := by
    split_ifs
    · exact (answerReplyNeededMessage_sends r _).trans (publishTrackerMQMessage_sends b _ pm "2")
    · exact Sends.refl r
  rw [afterPublish]
  split_ifs at hanswer ⊢ <;> exact ⟨hanswer.conn, hanswer.channel, hanswer.queueInfo,
    hanswer.pending, hanswer.handed⟩

theorem handOver_sends (r : RabbitMQ σ) (m : ℕ) : Sends r (handOver b r m).1 [m] := by
  have h := ensureResponse_sends b r m
  rw [handOver]
  generalize ensureResponse b r m = s at h ⊢
  dsimp only
  refine Sends.trans_nil ?_ (afterPublish_sends b _ m _ _)
  exact ⟨h.conn, h.channel, h.queueInfo, h.pending, by simp [h.handed]⟩

theorem publishWith_ready {r : RabbitMQ σ} (hr : r.Ready)
    (ensureQueue : RabbitMQ σ → RabbitMQ σ × Option String) (m : ℕ) :
    publishWith b ensureQueue r m = handOver b r m := by
  have hinit : ¬ (r.queueInfo.notInitialized = true ∧ r.config.isBroadcastExange = false) := by
    simp [QueueDescribes.notInitialized, hr.2]
  rw [publishWith, if_neg (by simp [hr.1]), if_neg hinit]

theorem startConsumer_sends (r : RabbitMQ σ) (cm : RabbitConsumerProxy) :
    Sends r (startConsumer b r cm).1 [] := by
  rw [startConsumer]
  cases consumedQueue b r cm with
  | mk env queueName => cases queueName <;> exact ⟨rfl, rfl, rfl, rfl, by simp⟩

theorem consumeWith_ready {r : RabbitMQ σ} (hr : r.Ready)
    (ensureQueue : RabbitMQ σ → RabbitMQ σ × Option String) (cm : RabbitConsumerProxy) :
    consumeWith b ensureQueue r cm = startConsumer b r cm := by
  have hinit : ¬ r.queueInfo.notInitialized = true := by
    simp [QueueDescribes.notInitialized, hr.2]
  rw [consumeWith, if_neg (by simp [hr.1]), if_neg hinit]

/-! ## The flush -/

section flush

variable (ensureQueue : RabbitMQ σ → RabbitMQ σ × Option String)

theorem foldl_consume_sends {r : RabbitMQ σ} (hr : r.Ready) (cms : List RabbitConsumerProxy) :
    Sends r (cms.foldl (fun r cm =>
      (consumeWith b ensureQueue r { cm with queue := r.queueInfo.name }).1) r) [] := by
  induction cms generalizing r with
  | nil => exact Sends.refl r
  | cons cm cms ih =>
    rw [List.foldl_cons, consumeWith_ready b hr]
    have hstart := startConsumer_sends b r { cm with queue := r.queueInfo.name }
    exact hstart.trans (ih (hstart.ready hr))

theorem foldl_publish_sends {r : RabbitMQ σ} (hr : r.Ready) (ms : List ℕ) :
    Sends r (ms.foldl (fun r m => (publishWith b ensureQueue r m).1) r) ms := by
  induction ms generalizing r with
  | nil => exact Sends.refl r
  | cons m ms ih =>
    rw [List.foldl_cons, publishWith_ready b hr]
    have hover := handOver_sends b r m
    exact hover.trans (ih (hover.ready hr))

/-- On a ready channel the flush hands over everything that waited, in order. -/
theorem ensurePendingsWith_ready {r : RabbitMQ σ} (hr : r.Ready) :
    let r' := ensurePendingsWith (consumeWith b ensureQueue) (publishWith b ensureQueue) r
    r'.conn = r.conn ∧ r'.channel = r.channel ∧ r'.queueInfo = r.queueInfo ∧
      r'.outbox = ⟨[], r.outbox.sent ++ r.outbox.waiting⟩ := by
  rw [ensurePendingsWith]
  have hc := foldl_consume_sends b ensureQueue
    (show Ready { r with pendingConsumers := [] } from hr) r.pendingConsumers
  generalize r.pendingConsumers.foldl _ _ = s at hc ⊢
  have hs := hc.ready hr
  have hp := foldl_publish_sends b ensureQueue
    (show Ready { s with pendingPublishes := [] } from hs) s.pendingPublishes
  dsimp only
  refine ⟨hp.conn.trans hc.conn, hp.channel.trans hc.channel, hp.queueInfo.trans hc.queueInfo, ?_⟩
  rw [outbox, outbox, hp.pending, hp.handed, hc.handed, hc.pending]
  simp

end flush

/-- Whatever `ensureQueue` it is given, the flush of a ready instance does not use it. -/
theorem ensurePendingsWith_eq {r : RabbitMQ σ} (hr : r.Ready)
    (e e' : RabbitMQ σ → RabbitMQ σ × Option String) :
    ensurePendingsWith (consumeWith b e) (publishWith b e) r =
      ensurePendingsWith (consumeWith b e') (publishWith b e') r := by
  have hfold : ∀ (cms : List RabbitConsumerProxy) (r : RabbitMQ σ), r.Ready →
      cms.foldl (fun r cm => (consumeWith b e r { cm with queue := r.queueInfo.name }).1) r =
      cms.foldl (fun r cm => (consumeWith b e' r { cm with queue := r.queueInfo.name }).1) r := by
    intro cms
    induction cms with
    | nil => intro r _; rfl
    | cons cm cms ih =>
      intro r hr
      rw [List.foldl_cons, List.foldl_cons, consumeWith_ready b hr, consumeWith_ready b hr]
      exact ih _ ((startConsumer_sends b r _).ready hr)
  have hfold' : ∀ (ms : List ℕ) (r : RabbitMQ σ), r.Ready →
      ms.foldl (fun r m => (publishWith b e r m).1) r =
      ms.foldl (fun r m => (publishWith b e' r m).1) r := by
    intro ms
    induction ms with
    | nil => intro r _; rfl
    | cons m ms ih =>
      intro r hr
      rw [List.foldl_cons, List.foldl_cons, publishWith_ready b hr, publishWith_ready b hr]
      exact ih _ ((handOver_sends b r m).ready hr)
  have hc := foldl_consume_sends b e'
    (show Ready { r with pendingConsumers := [] } from hr) r.pendingConsumers
  rw [ensurePendingsWith, ensurePendingsWith]
  rw [hfold r.pendingConsumers { r with pendingConsumers := [] } hr]
  exact hfold' _ _ (hc.ready hr)

/-! ## Declaring the queue -/

theorem createQueue_name {env env' : σ} {cfg : AMQPConfig} {jinDie : Bool}
    {queueInfo : QueueDescribes} (h : createQueue b env cfg jinDie = (env', .ok queueInfo)) :
    queueInfo.name ≠ "" := by
  rw [createQueue] at h
  cases hd : b.queueDeclare env (describeQueue cfg jinDie) with
  | mk env₁ declared =>
    cases declared with
    | error err => simp [hd] at h
    | ok queue =>
      simp only [hd] at h
      split_ifs at h with hbind
      · split at h
        · cases h
        · cases h
          exact queue.name_ne
      · cases h
        exact queue.name_ne

/-- The two definitions of the source, which call each other, at once. -/
theorem ensureQueue_eq (r : RabbitMQ σ) (hc : r.channel = true) : ensureQueue b r =
    ensureQueueWith b (ensurePendingsWith (consumeWith b (ensureQueue b))
      (publishWith b (ensureQueue b))) r := by
  rw [ensureQueue, ensureQueueWith, ensureQueueWith]
  split_ifs with hconn
  · rfl
  · cases hq : createQueue b r.env r.config r.jinDie with
    | mk env queueInfo =>
      cases queueInfo with
      | error err => rfl
      | ok queueInfo =>
        have hname := createQueue_name b hq
        have hr : (r.withQueue env queueInfo).Ready := ⟨hc, hname⟩
        have heq := ensurePendingsWith_eq b hr (fun r => (r, none)) (ensureQueue b)
        exact congrArg (fun s => (removeUnusedQueue b s, none)) heq

theorem removeUnusedQueue_sends (r : RabbitMQ σ) :
    (removeUnusedQueue b r).channel = r.channel ∧ (removeUnusedQueue b r).outbox = r.outbox ∧
      (removeUnusedQueue b r).queueInfo.name = r.queueInfo.name := by
  rw [removeUnusedQueue]
  split_ifs <;> exact ⟨rfl, rfl, rfl⟩

/-- The broker declares, and binds, the queue of the instance. -/
def DeclaresQueue (r : RabbitMQ σ) : Prop :=
  r.conn = true ∧ (createQueue b r.env r.config r.jinDie).2.isOk = true

/-- Declaring flushes the outbox; failing to declare leaves it alone and returns an error. -/
theorem ensureQueue_cases (r : RabbitMQ σ) (hc : r.channel = true) :
    (DeclaresQueue b r ∧ ∃ r', ensureQueue b r = (r', none) ∧ r'.Ready ∧
      r'.outbox = ⟨[], r.outbox.sent ++ r.outbox.waiting⟩) ∨
    (¬ DeclaresQueue b r ∧ ∃ r' err, ensureQueue b r = (r', some err) ∧ r'.outbox = r.outbox) := by
  rw [ensureQueue, ensureQueueWith]
  split_ifs with hconn
  · refine .inr ⟨fun hd => ?_, r, _, rfl, rfl⟩
    exact Bool.false_ne_true (hconn.symm.trans hd.1)
  · cases hq : createQueue b r.env r.config r.jinDie with
    | mk env queueInfo =>
      cases queueInfo with
      | error err =>
        refine .inr ⟨fun hd => ?_, _, _, rfl, rfl⟩
        have hok := hd.2
        rw [hq] at hok
        exact Bool.false_ne_true hok
      | ok queueInfo =>
        have hname := createQueue_name b hq
        have hr : (r.withQueue env queueInfo).Ready := ⟨hc, hname⟩
        obtain ⟨-, hchannel, hinfo, hout⟩ := ensurePendingsWith_ready b (fun r => (r, none)) hr
        obtain ⟨hchannel', hout', hname'⟩ := removeUnusedQueue_sends b
          (ensurePendings b (r.withQueue env queueInfo))
        refine .inl ⟨⟨eq_true_of_ne_false hconn, by rw [hq]; rfl⟩, _, rfl, ⟨?_, ?_⟩, ?_⟩
        · exact hchannel'.trans (hchannel.trans hc)
        · have hinfo' := hname'.trans (congrArg QueueDescribes.name hinfo)
          exact fun h => hname (hinfo'.symm.trans h)
        · exact hout'.trans hout

theorem ensureQueue_advances (r : RabbitMQ σ) (hc : r.channel = true) :
    r.outbox.Advances [] (ensureQueue b r).1.outbox := by
  rcases ensureQueue_cases b r hc with ⟨-, r', he, -, hout⟩ | ⟨-, r', err, he, hout⟩
  · rw [he, hout]
    exact Outbox.Advances.flush r.outbox
  · rw [he, hout]
    exact Outbox.Advances.refl r.outbox

/-! ## One round of the loop -/

/-- If publishing has to declare the queue, the broker declares it. -/
def PublishDeclares (r : RabbitMQ σ) : Prop :=
  r.channel = true → r.queueInfo.notInitialized = true → r.config.isBroadcastExange = false →
    DeclaresQueue b r

theorem handOver_advances (r : RabbitMQ σ) (m : ℕ) :
    r.outbox.Advances [m] (handOver b r m).1.outbox := by
  have h := handOver_sends b r m
  rw [outbox, outbox, h.pending, h.handed]
  exact Outbox.Advances.send r.outbox m

/-- A message is handed over or waits, unless it needed a declaration that failed: then it is
in neither place. -/
theorem publish_advances_iff (r : RabbitMQ σ) (m : ℕ) :
    r.outbox.Advances [m] (publish b r m).1.outbox ↔ PublishDeclares b r := by
  rw [publish, publishWith]
  split_ifs with hc hinit
  · exact ⟨fun _ h => absurd (hc.symm.trans h) (by simp), fun _ => Outbox.Advances.hold r.outbox m⟩
  · have hc' : r.channel = true := eq_true_of_ne_false hc
    rcases ensureQueue_cases b r hc' with ⟨hd, r', he, -, hout⟩ | ⟨hd, r', err, he, hout⟩
    · rw [he]
      refine ⟨fun _ _ _ _ => hd, fun _ => ?_⟩
      have hflush := Outbox.Advances.flush r.outbox
      rw [← hout] at hflush
      exact hflush.trans (handOver_advances b r' m)
    · rw [he]
      dsimp only
      rw [hout]
      exact ⟨fun h => absurd h (Outbox.not_advances_self r.outbox m),
        fun h => absurd (h hc' hinit.1 hinit.2) hd⟩
  · exact ⟨fun _ _ hn hb => absurd ⟨hn, hb⟩ hinit, fun _ => handOver_advances b r m⟩

theorem consume_advances (r : RabbitMQ σ) (cm : RabbitConsumerProxy) :
    r.outbox.Advances [] (consume b r cm).1.outbox := by
  have hstart : ∀ s : RabbitMQ σ, s.outbox.Advances [] (startConsumer b s cm).1.outbox := by
    intro s
    have h := startConsumer_sends b s cm
    rw [outbox, outbox, h.pending, h.handed, List.append_nil]
    exact Outbox.Advances.refl s.outbox
  rw [consume, consumeWith]
  split_ifs with hc hinit
  · exact Outbox.Advances.refl r.outbox
  · have hflush := ensureQueue_advances b r (eq_true_of_ne_false hc)
    cases he : ensureQueue b r with
    | mk r' err =>
      rw [he] at hflush
      cases err with
      | some err => exact hflush
      | none => exact hflush.trans (hstart r')
  · exact hstart r

theorem initConn_advances (r : RabbitMQ σ) : r.outbox.Advances [] (initConn b r).outbox := by
  rw [initConn]
  split_ifs
  · exact Outbox.Advances.refl r.outbox
  · cases b.connect r.env with
    | mk env dial =>
      cases dial with
      | noAddress => exact Outbox.Advances.refl r.outbox
      | noChannel => exact Outbox.Advances.refl r.outbox
      | ready =>
        dsimp only
        split_ifs
        · exact Outbox.Advances.refl r.outbox
        · exact ensureQueue_advances b
            { r with env, connecting := false, conn := true, channel := true } rfl

theorem reconnect_advances (r : RabbitMQ σ) : r.outbox.Advances [] (reconnect b r).outbox := by
  rw [reconnect]
  split_ifs
  · exact initConn_advances b
      { r with
        pendingConsumers := r.pendingConsumers ++ b.rangeConsumers r.env (r.consumers.map Prod.snd)
        consumers := [] }
  · exact Outbox.Advances.refl r.outbox

/-- The messages an event takes from the Publish channel. -/
def taken : Event → List ℕ
  | .publish m => [m]
  | _ => []

/-- If the event is a message that has to declare the queue, the broker declares it. -/
def Declares (r : RabbitMQ σ) : Event → Prop
  | .publish _ => PublishDeclares b (reconnect b r)
  | _ => True

theorem handle_advances (r : RabbitMQ σ) {e : Event} (hd : ∀ m, e = .publish m → PublishDeclares b r) :
    r.outbox.Advances (taken e) (handle b r e).outbox := by
  cases e with
  | publish m => exact (publish_advances_iff b r m).mpr (hd m rfl)
  | consume cm => exact consume_advances b r _
  | done =>
    rw [handle]
    split_ifs <;> exact Outbox.Advances.refl r.outbox
  | notice => exact Outbox.Advances.refl r.outbox
  | channelCancel => exact Outbox.Advances.refl r.outbox
  | connClosed => exact Outbox.Advances.refl r.outbox
  | channelClosed => exact Outbox.Advances.refl r.outbox
  | close => exact Outbox.Advances.refl r.outbox
  | tick isClosed shouldReconnect =>
    rw [handle]
    split_ifs <;> exact Outbox.Advances.refl r.outbox

theorem step_advances {r r' : RabbitMQ σ} {e : Event} (hd : Declares b r e)
    (hstep : step b r e = some r') : r.outbox.Advances (taken e) r'.outbox := by
  rw [step] at hstep
  split_ifs at hstep
  cases hstep
  refine (reconnect_advances b r).trans (handle_advances b _ fun m hm => ?_)
  cases hm
  exact hd

/-! ## Runs -/

/-- What the loop does to the outbox between two states. -/
def Advances (r : RabbitMQ σ) (ms : List ℕ) (r' : RabbitMQ σ) : Prop :=
  r.outbox.Advances ms r'.outbox

theorem run_advances {r r' : RabbitMQ σ} {events : List Event}
    (hd : Throughout (step b) (Declares b) r events) (hr : run (step b) r events = some r') :
    Advances r (events.flatMap taken) r' :=
  hd.compose taken (fun r => Outbox.Advances.refl r.outbox) Outbox.Advances.trans
    (fun _ _ _ hg hs => step_advances b hg hs) hr

/-- In a run whose messages never need a declaration that fails, each message taken is handed
over or waits, and only once; messages wait, and leave, in the order they were taken. -/
theorem run_loses_nothing (env : σ) (config : AMQPConfig) (driver : String) (jinDie : Bool)
    (trackerQueue : String) (messages : ℕ → MQPublishMessage) (before after : List Event)
    {r₁ r₂ : RabbitMQ σ}
    (h₁ : run (step b) (initConn b (newRabbitMQ env config driver jinDie trackerQueue messages))
      before = some r₁)
    (h₂ : run (step b) r₁ after = some r₂)
    (hd : Throughout (step b) (Declares b)
      (initConn b (newRabbitMQ env config driver jinDie trackerQueue messages)) (before ++ after)) :
    ((before ++ after).flatMap taken).Perm
        (r₂.handed.map Handed.message ++ r₂.pendingPublishes) ∧
      r₂.pendingPublishes.Sublist ((before ++ after).flatMap taken) ∧
      ∃ new, r₂.handed.map Handed.message = r₁.handed.map Handed.message ++ new ∧
        r₁.pendingPublishes.Sublist (new ++ r₂.pendingPublishes) := by
  obtain ⟨hd₁, hd₂⟩ := throughout_append.mp hd
  have hstart := initConn_advances b (newRabbitMQ env config driver jinDie trackerQueue messages)
  have hlater := run_advances b (hd₂ r₁ h₁) h₂
  have hwhole := (hstart.trans (run_advances b hd₁ h₁)).trans hlater
  rw [List.nil_append, ← List.flatMap_append] at hwhole
  obtain ⟨hperm, horder⟩ := hwhole.of_empty
  obtain ⟨new, hnew, -, hkept, -⟩ := hlater
  exact ⟨hperm, horder, new, hnew, hkept⟩

instance (r : RabbitMQ σ) : Decidable (DeclaresQueue b r) := inferInstanceAs (Decidable (_ ∧ _))

instance (r : RabbitMQ σ) : Decidable (PublishDeclares b r) :=
  inferInstanceAs (Decidable (_ → _ → _ → DeclaresQueue b r))

instance (r : RabbitMQ σ) (e : Event) : Decidable (Declares b r e) :=
  match e with
  | .publish _ => inferInstanceAs (Decidable (PublishDeclares b _))
  | .consume _ | .done | .notice | .channelCancel | .connClosed | .channelClosed | .close
  | .tick _ _ => .isTrue trivial

/-- A broker that declares everything and is reached as the script says. -/
def scriptedBroker : Broker (List Dial) where
  connect
    | [] => ([], .ready)
    | dial :: script => (script, dial)
  queueDeclare script _ := (script, .ok { name := "queue", name_ne := by decide })
  queueBind script _ _ _ := (script, none)
  queueDelete script _ _ := script
  publish script _ _ _ := (script, none)
  consume script _ _ := (script, none)
  rpcQueue script := (script, some "rpc")
  genLoweruuid script := (script, "uuid")
  ack script _ := script
  rangeConsumers _ cms := cms
  range_perm _ cms := List.Perm.refl cms

/-- A message waits for the connection and leaves in front of the next one. -/
theorem run_loses_nothing_reconnected :
    ∃ r : RabbitMQ (List Dial), [0, 1].Perm (r.handed.map Handed.message ++ r.pendingPublishes) :=
  ⟨_, (run_loses_nothing scriptedBroker [.ready, .noAddress] {} "rabbitmq" false "" (fun _ => {})
    [.channelClosed, .publish 0] [.publish 1] rfl rfl (by decide)).1⟩

/-- The ticker finds the connection closed but leaves the channel set, and connecting fails: the
message taken next is dropped, neither handed over nor kept nor reported. -/
theorem run_loses_message :
    (run (step scriptedBroker) (initConn scriptedBroker
      (newRabbitMQ [.ready, .noAddress] {} "rabbitmq" false "" fun _ => { publishStatus := some 0 }))
      [.tick true false, .publish 0]).map
        (fun r => (r.handed.map Handed.message, r.pendingPublishes, r.statuses)) =
      some ([], [], []) := rfl

end RabbitMQ
end Gocom
