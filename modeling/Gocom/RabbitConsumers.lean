import Gocom.RabbitPublishRuns
import Mathlib.Data.List.Perm.Subperm

/-!
# What becomes of consumers

A consumer that is registered waits in the pending list or is kept under the name of its queue.
Losing the connection sends those that are kept back to the pending list, and the next connection
starts them again, all of them under the queue of the instance. Where two meet under one name the
first is forgotten.
-/

namespace Gocom

/-- The broker, and beside it the consumers that it started on the present connection. -/
def Broker.recording {σ : Type*} (b : Broker σ) : Broker (σ × List RabbitConsumerProxy) where
  connect s := (((b.connect s.1).1, []), (b.connect s.1).2)
  queueDeclare s queueInfo :=
    (((b.queueDeclare s.1 queueInfo).1, s.2), (b.queueDeclare s.1 queueInfo).2)
  queueBind s queueName key exchange :=
    (((b.queueBind s.1 queueName key exchange).1, s.2), (b.queueBind s.1 queueName key exchange).2)
  queueDelete s queueName ifUnused := (b.queueDelete s.1 queueName ifUnused, s.2)
  publish s exchange routingKey msg :=
    (((b.publish s.1 exchange routingKey msg).1, s.2), (b.publish s.1 exchange routingKey msg).2)
  consume s queueName cm :=
    (((b.consume s.1 queueName cm).1,
      if (b.consume s.1 queueName cm).2 = none then s.2 ++ [cm] else s.2),
      (b.consume s.1 queueName cm).2)
  rpcQueue s := (((b.rpcQueue s.1).1, s.2), (b.rpcQueue s.1).2)
  genLoweruuid s := (((b.genLoweruuid s.1).1, s.2), (b.genLoweruuid s.1).2)
  ack s d := (b.ack s.1 d, s.2)
  rangeConsumers s := b.rangeConsumers s.1
  range_perm s := b.range_perm s.1

/-- A consumer, whatever queue it has been sent to. -/
def RabbitConsumerProxy.registration (cm : RabbitConsumerProxy) : RabbitConsumerProxy :=
  { cm with queue := "" }

namespace RabbitMQ

open Runs

variable {σ : Type*} (b : Broker σ)

/-- The consumers an event takes from the Consume channel. -/
def registered : Event → List RabbitConsumerProxy
  | .consume cm => [cm.registration]
  | _ => []

/-- Every registered consumer has been started on this connection or is pending. -/
def Survive (regs : List RabbitConsumerProxy)
    (r : RabbitMQ (σ × List RabbitConsumerProxy)) : Prop :=
  regs.Subperm ((r.env.2 ++ r.pendingConsumers).map RabbitConsumerProxy.registration)

/-- What is pending when an instance without a connection tries to get one. -/
def waiting (r : RabbitMQ σ) : List RabbitConsumerProxy :=
  r.pendingConsumers ++ b.rangeConsumers r.env (r.consumers.map Prod.snd)

/-- If the connection is made and the queue declared, at most one consumer was pending, and the
broker starts it. -/
def Resumes (r : RabbitMQ σ) : Prop :=
  r.conn = false → ∀ env env' queueInfo, b.connect r.env = (env, .ready) →
    createQueue b env r.config r.jinDie = (env', .ok queueInfo) →
    waiting b r = [] ∨ ∃ cm, waiting b r = [cm] ∧
      (b.consume env' queueInfo.name { cm with queue := queueInfo.name }).2 = none

/-- On a channel, a new consumer finds no other under the queue of the instance, and what has to be
declared for it is declared. -/
def Registers (r : RabbitMQ σ) (cm : RabbitConsumerProxy) : Prop :=
  r.channel = true →
    if r.queueInfo.name = "" then
      DeclaresQueue b r ∧ (consumedQueue b (ensureQueue b r).1 cm).2.isOk = true
    else r.queueInfo.name ∉ r.consumers.map Prod.fst

/-- A round forgets no consumer. -/
def Keeps (r : RabbitMQ σ) (e : Event) : Prop :=
  Resumes b r ∧ ∀ cm, e = .consume cm → Registers b (reconnect b r) cm

/-! ## What publishing leaves alone -/

/-- From `r` to `r'` no consumer moved. -/
structure Leaves (r r' : RabbitMQ (σ × List RabbitConsumerProxy)) : Prop where
  connecting : r'.connecting = r.connecting
  conn : r'.conn = r.conn
  channel : r'.channel = r.channel
  queueName : r'.queueInfo.name = r.queueInfo.name
  consumers : r'.consumers = r.consumers
  pending : r'.pendingConsumers = r.pendingConsumers
  started : r'.env.2 = r.env.2

theorem Leaves.refl (r : RabbitMQ (σ × List RabbitConsumerProxy)) : Leaves r r :=
  ⟨rfl, rfl, rfl, rfl, rfl, rfl, rfl⟩

theorem Leaves.trans {r r' r'' : RabbitMQ (σ × List RabbitConsumerProxy)} (h : Leaves r r')
    (h' : Leaves r' r'') : Leaves r r'' where
  connecting := h'.connecting.trans h.connecting
  conn := h'.conn.trans h.conn
  channel := h'.channel.trans h.channel
  queueName := h'.queueName.trans h.queueName
  consumers := h'.consumers.trans h.consumers
  pending := h'.pending.trans h.pending
  started := h'.started.trans h.started

theorem ensureResponse_leaves (r : RabbitMQ (σ × List RabbitConsumerProxy)) (m : ℕ) :
    Leaves r (ensureResponse b.recording r m) := by
  rw [ensureResponse]
  split_ifs with hresp
  · exact Leaves.refl r
  · cases hrpc : r.rpc with
    | some rpc =>
      simp only [getRPCInstance, hrpc]
      exact ⟨rfl, rfl, rfl, rfl, rfl, rfl, rfl⟩
    | none =>
      cases hq : b.rpcQueue r.env.1 with
      | mk env queueName =>
        cases queueName <;> simp only [getRPCInstance, hrpc, Broker.recording, hq] <;>
          exact ⟨rfl, rfl, rfl, rfl, rfl, rfl, rfl⟩

theorem afterPublish_leaves (r : RabbitMQ (σ × List RabbitConsumerProxy)) (m : ℕ)
    (pm : MQPublishMessage) (err : Option String) :
    Leaves r (afterPublish b.recording r m pm err) := by
  have hanswer : Leaves r (if "" ≠ pm.correlationID then
      publishTrackerMQMessage b.recording (r.answerReplyNeededMessage pm.correlationID) pm "2"
      else r) := by
    rw [publishTrackerMQMessage, answerReplyNeededMessage]
    split_ifs <;> exact ⟨rfl, rfl, rfl, rfl, rfl, rfl, rfl⟩
  rw [afterPublish]
  split_ifs at hanswer ⊢ <;> exact ⟨hanswer.connecting, hanswer.conn, hanswer.channel,
    hanswer.queueName, hanswer.consumers, hanswer.pending, hanswer.started⟩

theorem handOver_leaves (r : RabbitMQ (σ × List RabbitConsumerProxy)) (m : ℕ) :
    Leaves r (handOver b.recording r m).1 := by
  have h := ensureResponse_leaves b r m
  rw [handOver]
  generalize ensureResponse b.recording r m = s at h ⊢
  dsimp only
  refine Leaves.trans ?_ (afterPublish_leaves b _ m _ _)
  exact ⟨h.connecting, h.conn, h.channel, h.queueName, h.consumers, h.pending, h.started⟩

theorem foldl_publish_leaves {r : RabbitMQ (σ × List RabbitConsumerProxy)} (hr : r.Ready)
    (ensureQueue : RabbitMQ (σ × List RabbitConsumerProxy) →
      RabbitMQ (σ × List RabbitConsumerProxy) × Option String) (ms : List ℕ) :
    Leaves r (ms.foldl (fun r m => (publishWith b.recording ensureQueue r m).1) r) := by
  induction ms generalizing r with
  | nil => exact Leaves.refl r
  | cons m ms ih =>
    rw [List.foldl_cons, publishWith_ready b.recording hr]
    exact (handOver_leaves b r m).trans (ih ((handOver_sends b.recording r m).ready hr))

/-! ## The flush -/

/-- Nothing was pending, so no consumer moves. -/
theorem ensurePendings_of_nil {r : RabbitMQ (σ × List RabbitConsumerProxy)} (hr : r.Ready)
    (hpending : r.pendingConsumers = []) : Leaves r (ensurePendings b.recording r) := by
  have hsame : ({ r with pendingConsumers := [] } : RabbitMQ _) = r := by rw [← hpending]
  rw [ensurePendings, ensurePendingsWith, hpending, List.foldl_nil, hsame]
  have hflush := foldl_publish_leaves b
    (show Ready { r with pendingPublishes := [] } from hr) (fun r => (r, none)) r.pendingPublishes
  exact ⟨hflush.connecting, hflush.conn, hflush.channel, hflush.queueName, hflush.consumers,
    hflush.pending, hflush.started⟩

/-- The one consumer that was pending is kept under the queue of the instance. -/
theorem ensurePendings_of_singleton {r : RabbitMQ (σ × List RabbitConsumerProxy)} (hr : r.Ready)
    {cm : RabbitConsumerProxy} (hpending : r.pendingConsumers = [cm]) :
    Leaves (startConsumer b.recording { r with pendingConsumers := [] }
      { cm with queue := r.queueInfo.name }).1 (ensurePendings b.recording r) := by
  have hr' : Ready { r with pendingConsumers := [] } := hr
  rw [ensurePendings, ensurePendingsWith, hpending, List.foldl_cons, List.foldl_nil,
    consumeWith_ready b.recording hr']
  have hstarted := (startConsumer_sends b.recording { r with pendingConsumers := [] }
    { cm with queue := r.queueInfo.name }).ready hr'
  dsimp only
  generalize (startConsumer b.recording { r with pendingConsumers := [] }
    { cm with queue := r.queueInfo.name }).1 = s at hstarted ⊢
  have hflush := foldl_publish_leaves b
    (show Ready { s with pendingPublishes := [] } from hstarted) (fun r => (r, none))
    s.pendingPublishes
  exact ⟨hflush.connecting, hflush.conn, hflush.channel, hflush.queueName, hflush.consumers,
    hflush.pending, hflush.started⟩

theorem removeUnusedQueue_leaves (r : RabbitMQ (σ × List RabbitConsumerProxy)) :
    Leaves r (removeUnusedQueue b.recording r) := by
  rw [removeUnusedQueue]
  split_ifs <;> exact ⟨rfl, rfl, rfl, rfl, rfl, rfl, rfl⟩

theorem storeConsumer_of_not_mem {consumers : List (String × RabbitConsumerProxy)}
    {queueName : String} (cm : RabbitConsumerProxy) (h : queueName ∉ consumers.map Prod.fst) :
    storeConsumer consumers queueName cm = consumers ++ [(queueName, cm)] := by
  rw [storeConsumer, List.filter_eq_self.mpr]
  intro p hp
  refine decide_eq_true fun heq => h ?_
  exact heq ▸ List.mem_map_of_mem hp

/-! ## Where the consumers are -/

/-- The registered consumers, each kept once. -/
structure Tracked (regs : List RabbitConsumerProxy) (r : RabbitMQ σ) : Prop where
  connecting : r.connecting = false
  channel : r.conn = true → r.channel = true
  pending : r.conn = true → r.pendingConsumers = []
  undeclared : r.conn = true → r.queueInfo.name = "" → r.consumers = []
  kept : regs.Perm
    ((r.consumers.map Prod.snd ++ r.pendingConsumers).map RabbitConsumerProxy.registration)

theorem Tracked.leaves {regs : List RabbitConsumerProxy}
    {r r' : RabbitMQ (σ × List RabbitConsumerProxy)} (h : Tracked regs r) (hl : Leaves r r') :
    Tracked regs r' where
  connecting := hl.connecting.trans h.connecting
  channel := fun hconn => hl.channel.trans (h.channel (hl.conn.symm.trans hconn))
  pending := fun hconn => hl.pending.trans (h.pending (hl.conn.symm.trans hconn))
  undeclared := fun hconn hname => hl.consumers.trans
    (h.undeclared (hl.conn.symm.trans hconn) (hl.queueName.symm.trans hname))
  kept := by
    rw [hl.consumers, hl.pending]
    exact h.kept

/-- Without a connection only the lists matter. -/
theorem Tracked.lost {regs : List RabbitConsumerProxy} {r r' : RabbitMQ σ} (h : Tracked regs r)
    (hconnecting : r'.connecting = false) (hconn : r'.conn = false)
    (hconsumers : r'.consumers = r.consumers)
    (hpending : r'.pendingConsumers = r.pendingConsumers) :
    Tracked regs r' where
  connecting := hconnecting
  channel := fun h => absurd (hconn.symm.trans h) Bool.false_ne_true
  pending := fun h => absurd (hconn.symm.trans h) Bool.false_ne_true
  undeclared := fun h => absurd (hconn.symm.trans h) Bool.false_ne_true
  kept := by
    rw [hconsumers, hpending]
    exact h.kept

theorem ensureQueue_connected (r : RabbitMQ σ) (hconn : r.conn = true) :
    (∃ env err, createQueue b r.env r.config r.jinDie = (env, .error err) ∧
      ensureQueue b r = (({ r with env } : RabbitMQ σ).close, some err)) ∨
    ∃ env queueInfo, createQueue b r.env r.config r.jinDie = (env, .ok queueInfo) ∧
      ensureQueue b r =
        ((ensurePendings b (r.withQueue env queueInfo)).removeUnusedQueue b, none) := by
  rw [ensureQueue, ensureQueueWith, if_neg (fun h => Bool.false_ne_true (h.symm.trans hconn))]
  cases createQueue b r.env r.config r.jinDie with
  | mk env queueInfo =>
    cases queueInfo with
    | error err => exact .inl ⟨env, err, rfl, rfl⟩
    | ok queueInfo => exact .inr ⟨env, queueInfo, rfl, rfl⟩

/-- Declaring the queue with nothing pending moves no consumer. -/
theorem ensureQueue_leaves {r : RabbitMQ (σ × List RabbitConsumerProxy)} (hconn : r.conn = true)
    (hchannel : r.channel = true) (hpending : r.pendingConsumers = [])
    {env : σ × List RabbitConsumerProxy} {queueInfo : QueueDescribes}
    (hq : createQueue b.recording r.env r.config r.jinDie = (env, .ok queueInfo)) :
    Leaves (r.withQueue env queueInfo) (ensureQueue b.recording r).1 := by
  obtain ⟨env', err, hq', -⟩ | ⟨env', queueInfo', hq', he⟩ :=
    ensureQueue_connected b.recording r hconn
  · cases hq.symm.trans hq'
  · cases hq.symm.trans hq'
    rw [he]
    have hname := createQueue_name b.recording hq
    have hr : (r.withQueue env queueInfo).Ready := ⟨hchannel, hname⟩
    exact (ensurePendings_of_nil b hr hpending).trans (removeUnusedQueue_leaves b _)

/-- A connected instance declares its queue with nothing pending, or fails and gives up the
connection. -/
theorem ensureQueue_tracked {regs : List RabbitConsumerProxy}
    {r : RabbitMQ (σ × List RabbitConsumerProxy)} (h : Tracked regs r) :
    Tracked regs (ensureQueue b.recording r).1 := by
  by_cases hconn : r.conn = true
  · obtain ⟨env, err, -, he⟩ | ⟨env, queueInfo, hq, -⟩ := ensureQueue_connected b.recording r hconn
    · rw [he]
      exact h.lost rfl rfl rfl rfl
    · have hname := createQueue_name b.recording hq
      have hdeclared : Tracked regs (r.withQueue env queueInfo) :=
        ⟨h.connecting, h.channel, h.pending, fun _ hempty => absurd hempty hname, h.kept⟩
      exact hdeclared.leaves (ensureQueue_leaves b hconn (h.channel hconn) (h.pending hconn) hq)
  · rw [ensureQueue, ensureQueueWith, if_pos (eq_false_of_ne_true hconn)]
    exact h

theorem handOver_tracked {regs : List RabbitConsumerProxy}
    {r : RabbitMQ (σ × List RabbitConsumerProxy)} (h : Tracked regs r) (m : ℕ) :
    Tracked regs (handOver b.recording r m).1 := h.leaves (handOver_leaves b r m)

theorem publish_tracked {regs : List RabbitConsumerProxy}
    {r : RabbitMQ (σ × List RabbitConsumerProxy)} (h : Tracked regs r) (m : ℕ) :
    Tracked regs (publish b.recording r m).1 := by
  rw [publish, publishWith]
  split_ifs with hchannel hinit
  · exact ⟨h.connecting, h.channel, h.pending, h.undeclared, h.kept⟩
  · have hq := ensureQueue_tracked b h
    cases he : ensureQueue b.recording r with
    | mk r' err =>
      rw [he] at hq
      cases err with
      | some err => exact hq
      | none => exact handOver_tracked b hq m
  · exact handOver_tracked b h m

/-- One more consumer, kept under a name that was free. -/
theorem Tracked.start {regs : List RabbitConsumerProxy} {r : RabbitMQ σ} (h : Tracked regs r)
    (hname : r.queueInfo.name ≠ "") (cm : RabbitConsumerProxy) (env : σ) {queueName : String}
    (hfree : queueName ∉ r.consumers.map Prod.fst) :
    Tracked (regs ++ [cm.registration])
      { r with consumers := storeConsumer r.consumers queueName cm, env } where
  connecting := h.connecting
  channel := h.channel
  pending := h.pending
  undeclared := fun _ hempty => absurd hempty hname
  kept := by
    dsimp only
    rw [storeConsumer_of_not_mem cm hfree, List.map_append (f := Prod.snd), List.append_assoc]
    have hlast : (r.consumers.map Prod.snd ++ r.pendingConsumers ++ [cm]).Perm
        (r.consumers.map Prod.snd ++ ([cm] ++ r.pendingConsumers)) := by
      rw [List.append_assoc]
      exact List.perm_append_comm.append_left _
    refine List.Perm.trans ?_ (hlast.map _)
    rw [List.map_append]
    exact h.kept.append_right _

theorem startConsumer_tracked {regs : List RabbitConsumerProxy} {r : RabbitMQ σ}
    (h : Tracked regs r) (hname : r.queueInfo.name ≠ "") {cm : RabbitConsumerProxy} {env : σ}
    {queueName : String} (hqueue : consumedQueue b r cm = (env, .ok queueName))
    (hfree : queueName ∉ r.consumers.map Prod.fst) :
    Tracked (regs ++ [cm.registration]) (startConsumer b r cm).1 := by
  rw [startConsumer, hqueue]
  exact h.start hname cm _ hfree

/-- Without a channel the consumer is pending. -/
theorem consume_tracked_pending {regs : List RabbitConsumerProxy} {r : RabbitMQ σ}
    (h : Tracked regs r) (hchannel : r.channel = false) (cm : RabbitConsumerProxy) :
    Tracked (regs ++ [cm.registration]) (consume b r cm).1 := by
  rw [consume, consumeWith, if_pos hchannel]
  refine ⟨h.connecting, h.channel, fun hconn => ?_, h.undeclared, ?_⟩
  · exact absurd (hchannel.symm.trans (h.channel hconn)) Bool.false_ne_true
  · rw [← List.append_assoc, List.map_append, List.map_singleton]
    exact h.kept.append_right _

/-- Where the queue is to be declared first, the consumer starts on the one that is declared. -/
theorem consume_tracked_declaring {regs : List RabbitConsumerProxy}
    {r : RabbitMQ (σ × List RabbitConsumerProxy)} (h : Tracked regs r) {cm : RabbitConsumerProxy}
    (hchannel : r.channel = true) (hname : r.queueInfo.name = "")
    (hregisters : Registers b.recording r cm) :
    Tracked (regs ++ [cm.registration]) (consume b.recording r cm).1 := by
  have hregistered := hregisters hchannel
  rw [if_pos hname] at hregistered
  obtain ⟨⟨hconn, hdeclared⟩, hown⟩ := hregistered
  obtain ⟨env, err, hq, -⟩ | ⟨env, queueInfo, hq, he⟩ :=
    ensureQueue_connected b.recording r hconn
  · rw [hq] at hdeclared
    exact absurd hdeclared Bool.false_ne_true
  · have hleaves := ensureQueue_leaves b hconn hchannel (h.pending hconn) hq
    have htracked := ensureQueue_tracked b h
    rw [he] at hown hleaves htracked
    have hinit : r.queueInfo.notInitialized = true := by
      rw [QueueDescribes.notInitialized, hname]
      rfl
    rw [consume, consumeWith, if_neg (by rw [hchannel]; exact Bool.noConfusion), if_pos hinit, he]
    have hname' := createQueue_name b.recording hq
    generalize removeUnusedQueue b.recording _ = r' at hown hleaves htracked ⊢
    have hnone : r'.consumers = [] := hleaves.consumers.trans (h.undeclared hconn hname)
    cases hqueue : consumedQueue b.recording r' cm with
    | mk env' queueName =>
      rw [hqueue] at hown
      cases queueName with
      | error err => exact absurd hown Bool.false_ne_true
      | ok queueName =>
        refine startConsumer_tracked b.recording htracked ?_ hqueue (by simp [hnone])
        exact fun hempty => hname' (hleaves.queueName.symm.trans hempty)

/-- The consumer is pending, or kept under a free name: that of the queue of the instance, or, on a
broadcast instance without consumers, that of its own. -/
theorem consume_tracked {regs : List RabbitConsumerProxy}
    {r : RabbitMQ (σ × List RabbitConsumerProxy)} (h : Tracked regs r) {cm : RabbitConsumerProxy}
    (hregisters : Registers b.recording r cm) :
    Tracked (regs ++ [cm.registration]) (handle b.recording r (.consume cm)) := by
  by_cases hchannel : r.channel = true
  · by_cases hname : r.queueInfo.name = ""
    · rw [handle, if_neg (not_not.mpr hname.symm)]
      exact consume_tracked_declaring b h hchannel hname hregisters
    · have hregistered := hregisters hchannel
      rw [if_neg hname] at hregistered
      rw [handle, if_pos (Ne.symm hname), consume, consumeWith_ready b.recording ⟨hchannel, hname⟩]
      have hqueue : consumedQueue b.recording r { cm with queue := r.queueInfo.name } =
          (r.env, .ok r.queueInfo.name) := by
        rw [consumedQueue, if_neg (fun h => h.1 rfl)]
      exact startConsumer_tracked b.recording h hname hqueue hregistered
  · have hnone := eq_false_of_ne_true hchannel
    rw [handle]
    split_ifs
    · exact consume_tracked_pending b.recording h hnone { cm with queue := r.queueInfo.name }
    · exact consume_tracked_pending b.recording h hnone cm

theorem handle_tracked {regs : List RabbitConsumerProxy}
    {r : RabbitMQ (σ × List RabbitConsumerProxy)} (h : Tracked regs r) {e : Event}
    (hregisters : ∀ cm, e = .consume cm → Registers b.recording r cm) :
    Tracked (regs ++ registered e) (handle b.recording r e) := by
  cases e with
  | consume cm => exact consume_tracked b h (hregisters cm rfl)
  | publish m =>
    change Tracked (regs ++ []) _
    rw [List.append_nil]
    exact publish_tracked b h m
  | done =>
    change Tracked (regs ++ []) _
    rw [List.append_nil, handle]
    split_ifs
    · exact h.lost rfl rfl rfl rfl
    · exact h
  | notice =>
    change Tracked (regs ++ []) _
    rw [List.append_nil]
    exact h
  | channelCancel | connClosed | channelClosed | close =>
    change Tracked (regs ++ []) _
    rw [List.append_nil]
    exact h.lost rfl rfl rfl rfl
  | tick isClosed shouldReconnect =>
    change Tracked (regs ++ []) _
    rw [List.append_nil, handle]
    split_ifs with hconn hclosed hchannel hreconnect
    · exact h
    · exact h.lost rfl rfl rfl rfl
    · exact h
    · exact h.lost rfl rfl rfl rfl
    · exact h

/-! ## Reconnecting -/

theorem waiting_perm (r : RabbitMQ σ) :
    (waiting b r).Perm (r.consumers.map Prod.snd ++ r.pendingConsumers) :=
  ((b.range_perm r.env _).append_left _).trans List.perm_append_comm

theorem Tracked.of_perm {regs regs' : List RabbitConsumerProxy} {r : RabbitMQ σ}
    (h : Tracked regs r) (hperm : regs'.Perm regs) : Tracked regs' r :=
  ⟨h.connecting, h.channel, h.pending, h.undeclared, hperm.trans h.kept⟩

/-- Without consumers there is nothing to keep. -/
theorem tracked_nil {r : RabbitMQ σ} (hconnecting : r.connecting = false)
    (hchannel : r.conn = true → r.channel = true) (hconsumers : r.consumers = [])
    (hpending : r.pendingConsumers = []) : Tracked [] r where
  connecting := hconnecting
  channel := hchannel
  pending := fun _ => hpending
  undeclared := fun _ _ => hconsumers
  kept := by
    rw [hconsumers, hpending]
    exact List.Perm.refl []

/-- Without a connection every consumer is pending. -/
theorem tracked_pending {r : RabbitMQ σ} (hconnecting : r.connecting = false)
    (hconn : r.conn = false) (hconsumers : r.consumers = []) :
    Tracked (r.pendingConsumers.map RabbitConsumerProxy.registration) r where
  connecting := hconnecting
  channel := fun h => absurd (hconn.symm.trans h) Bool.false_ne_true
  pending := fun h => absurd (hconn.symm.trans h) Bool.false_ne_true
  undeclared := fun _ _ => hconsumers
  kept := by
    rw [hconsumers]
    exact List.Perm.refl _

/-- The flush of at most one consumer keeps it and starts it. -/
theorem ensurePendings_resumes {r : RabbitMQ (σ × List RabbitConsumerProxy)} (hr : r.Ready)
    (hconnecting : r.connecting = false) (hconsumers : r.consumers = [])
    (hone : r.pendingConsumers = [] ∨ ∃ cm, r.pendingConsumers = [cm] ∧
      (b.recording.consume r.env r.queueInfo.name { cm with queue := r.queueInfo.name }).2 = none) :
    let regs := r.pendingConsumers.map RabbitConsumerProxy.registration
    Tracked regs (ensurePendings b.recording r) ∧ Survive regs (ensurePendings b.recording r) := by
  obtain hnone | ⟨cm, hcm, haccepted⟩ := hone
  case inl =>
    have hleaves := ensurePendings_of_nil b hr hnone
    rw [hnone]
    have htracked := tracked_nil hconnecting (fun _ => hr.1) hconsumers hnone
    exact ⟨htracked.leaves hleaves, List.nil_subperm⟩
  case inr =>
    have hleaves := ensurePendings_of_singleton b hr hcm
    have hqueue : consumedQueue b.recording { r with pendingConsumers := [] }
        { cm with queue := r.queueInfo.name } = (r.env, .ok r.queueInfo.name) := by
      rw [consumedQueue, if_neg (fun h => h.1 rfl)]
    have hstarted := startConsumer_tracked b.recording
      (tracked_nil (r := { r with pendingConsumers := [] }) hconnecting (fun _ => hr.1) hconsumers
        rfl) hr.2 hqueue
      (by simp [hconsumers])
    have hlog : (startConsumer b.recording { r with pendingConsumers := [] }
        { cm with queue := r.queueInfo.name }).1.env.2 =
          r.env.2 ++ [{ cm with queue := r.queueInfo.name }] := by
      rw [startConsumer, hqueue]
      exact if_pos haccepted
    rw [hcm]
    refine ⟨hstarted.leaves hleaves, ?_⟩
    rw [Survive, hleaves.started, hlog, List.append_assoc, List.map_append]
    refine List.Sublist.subperm (List.Sublist.trans ?_ (List.sublist_append_right _ _))
    rw [List.map_append]
    exact List.sublist_append_left _ _

/-- What is pending survives whatever else happens. -/
theorem survive_pending {r s : RabbitMQ (σ × List RabbitConsumerProxy)}
    (hs : s.pendingConsumers = r.pendingConsumers) :
    Survive (r.pendingConsumers.map RabbitConsumerProxy.registration) s := by
  rw [Survive, hs, List.map_append]
  exact (List.sublist_append_right _ _).subperm

/-- A declared queue starts the consumers; one that cannot be declared leaves them pending. -/
theorem ensureQueue_resumes {r : RabbitMQ (σ × List RabbitConsumerProxy)} (hconn : r.conn = true)
    (hchannel : r.channel = true) (hconnecting : r.connecting = false)
    (hconsumers : r.consumers = [])
    (hone : ∀ env queueInfo,
      createQueue b.recording r.env r.config r.jinDie = (env, .ok queueInfo) →
      r.pendingConsumers = [] ∨ ∃ cm, r.pendingConsumers = [cm] ∧
        (b.recording.consume env queueInfo.name { cm with queue := queueInfo.name }).2 = none) :
    let regs := r.pendingConsumers.map RabbitConsumerProxy.registration
    Tracked regs (ensureQueue b.recording r).1 ∧ Survive regs (ensureQueue b.recording r).1 := by
  obtain ⟨env, err, -, he⟩ | ⟨env, queueInfo, hq, he⟩ := ensureQueue_connected b.recording r hconn
  · rw [he]
    exact ⟨tracked_pending (r := ({ r with env } : RabbitMQ _).close) rfl rfl hconsumers,
      survive_pending rfl⟩
  · have hname := createQueue_name b.recording hq
    obtain ⟨htracked, hsurvive⟩ := ensurePendings_resumes b
      (show Ready (r.withQueue env queueInfo) from ⟨hchannel, hname⟩) hconnecting hconsumers
      (hone env queueInfo hq)
    have hleaves := removeUnusedQueue_leaves b
      (ensurePendings b.recording (r.withQueue env queueInfo))
    rw [he]
    refine ⟨htracked.leaves hleaves, ?_⟩
    rw [Survive, hleaves.started, hleaves.pending]
    exact hsurvive

theorem initConn_resumes {r : RabbitMQ (σ × List RabbitConsumerProxy)} (hconn : r.conn = false)
    (hconnecting : r.connecting = false) (hconsumers : r.consumers = [])
    (hone : ∀ env env' queueInfo, b.recording.connect r.env = (env, .ready) →
      createQueue b.recording env r.config r.jinDie = (env', .ok queueInfo) →
      r.pendingConsumers = [] ∨ ∃ cm, r.pendingConsumers = [cm] ∧
        (b.recording.consume env' queueInfo.name { cm with queue := queueInfo.name }).2 = none) :
    let regs := r.pendingConsumers.map RabbitConsumerProxy.registration
    Tracked regs (initConn b.recording r) ∧ Survive regs (initConn b.recording r) := by
  have hlost : ∀ s : RabbitMQ (σ × List RabbitConsumerProxy), s.connecting = false →
      s.conn = false → s.consumers = [] → s.pendingConsumers = r.pendingConsumers →
      Tracked (r.pendingConsumers.map RabbitConsumerProxy.registration) s ∧
        Survive (r.pendingConsumers.map RabbitConsumerProxy.registration) s := by
    intro s hconnecting hconn hconsumers hpending
    rw [← hpending]
    exact ⟨tracked_pending hconnecting hconn hconsumers, survive_pending rfl⟩
  rw [initConn]
  split_ifs with hdriver
  · exact hlost r hconnecting hconn hconsumers rfl
  · cases hc : b.recording.connect r.env with
    | mk env dial =>
      cases dial with
      | noAddress => exact hlost _ rfl hconn hconsumers rfl
      | noChannel => exact hlost _ rfl rfl hconsumers rfl
      | ready =>
        dsimp only
        split_ifs with hidle
        · have hnone : r.pendingConsumers = [] :=
            List.eq_nil_of_length_eq_zero (Nat.le_zero.mp hidle.2.2)
          refine ⟨?_, survive_pending rfl⟩
          have htracked := tracked_nil
            (r := { r with env, connecting := false, conn := true, channel := true })
            rfl (fun _ => rfl) hconsumers hnone
          exact htracked.of_perm (by rw [hnone]; exact List.Perm.refl [])
        · exact ensureQueue_resumes b
            (r := { r with env, connecting := false, conn := true, channel := true })
            rfl rfl rfl hconsumers fun env' queueInfo hq => hone env env' queueInfo hc hq

/-- A round starts with a connection that is there or with an attempt to get one. -/
theorem reconnect_tracked {regs : List RabbitConsumerProxy}
    {r : RabbitMQ (σ × List RabbitConsumerProxy)} (h : Tracked regs r)
    (hresumes : Resumes b.recording r) :
    Tracked regs (reconnect b.recording r) ∧
      (r.conn = false → Survive regs (reconnect b.recording r)) := by
  by_cases hconn : r.conn = false
  · rw [reconnect, if_pos ⟨h.connecting, hconn⟩]
    obtain ⟨htracked, hsurvive⟩ := initConn_resumes b
      (r := { r with pendingConsumers := waiting b.recording r, consumers := [] })
      hconn h.connecting rfl (hresumes hconn)
    have hregs := h.kept.trans ((waiting_perm b.recording r).map
      RabbitConsumerProxy.registration).symm
    exact ⟨htracked.of_perm hregs, fun _ => hregs.subperm.trans hsurvive⟩
  · rw [reconnect, if_neg (fun hlost => hconn hlost.2)]
    exact ⟨h, fun hlost => absurd hlost hconn⟩

theorem step_tracked {regs : List RabbitConsumerProxy}
    {r r' : RabbitMQ (σ × List RabbitConsumerProxy)} {e : Event} (h : Tracked regs r)
    (hkeeps : Keeps b.recording r e) (hstep : step b.recording r e = some r') :
    Tracked (regs ++ registered e) r' := by
  rw [step] at hstep
  split_ifs at hstep
  cases hstep
  exact handle_tracked b (reconnect_tracked b h hkeeps.1).1 hkeeps.2

/-! ## Runs -/

theorem initConn_tracked (r : RabbitMQ (σ × List RabbitConsumerProxy)) (hconn : r.conn = false)
    (hconnecting : r.connecting = false) (hconsumers : r.consumers = [])
    (hpending : r.pendingConsumers = []) : Tracked [] (initConn b.recording r) := by
  have h := initConn_resumes b hconn hconnecting hconsumers fun _ _ _ _ _ => .inl hpending
  rw [hpending] at h
  exact h.1

theorem run_tracked {regs : List RabbitConsumerProxy}
    {r r' : RabbitMQ (σ × List RabbitConsumerProxy)} {events : List Event} (h : Tracked regs r)
    (hkeeps : Throughout (step b.recording) (Keeps b.recording) r events)
    (hrun : run (step b.recording) r events = some r') :
    Tracked (regs ++ events.flatMap registered) r' := by
  have hcompose := hkeeps.compose (R := fun r cms r' => ∀ regs, Tracked regs r →
    Tracked (regs ++ cms) r') registered
    (fun r regs h => by rwa [List.append_nil])
    (fun h h' regs hregs => by
      rw [← List.append_assoc]
      exact h' _ (h regs hregs))
    (fun r e r' hk hs regs hregs => step_tracked b hregs hk hs) hrun
  exact hcompose regs h

/-- In a run that forgets no consumer, every consumer registered so far is started again or pending
after each attempt to connect again. -/
theorem run_consumers_survive (env : σ) (config : AMQPConfig) (driver : String) (jinDie : Bool)
    (trackerQueue : String) (messages : ℕ → MQPublishMessage) (events : List Event) (e : Event)
    {r : RabbitMQ (σ × List RabbitConsumerProxy)}
    (hkeeps : Throughout (step b.recording) (Keeps b.recording) (initConn b.recording
      (newRabbitMQ (env, []) config driver jinDie trackerQueue messages)) (events ++ [e]))
    (hrun : run (step b.recording) (initConn b.recording
      (newRabbitMQ (env, []) config driver jinDie trackerQueue messages)) events = some r)
    (hlost : r.conn = false) :
    Survive (events.flatMap registered) (reconnect b.recording r) := by
  obtain ⟨hbefore, hlast⟩ := throughout_append.mp hkeeps
  have htracked := run_tracked b (initConn_tracked b
    (newRabbitMQ (env, []) config driver jinDie trackerQueue messages) rfl rfl rfl rfl) hbefore hrun
  rw [List.nil_append] at htracked
  exact (reconnect_tracked b htracked (hlast r hrun).1.1).2 hlost

instance (r : RabbitMQ σ) (cm : RabbitConsumerProxy) : Decidable (Registers b r cm) :=
  inferInstanceAs (Decidable (_ → _))

/-- A consumer of a connected instance is started again on the next connection. -/
theorem run_consumers_survive_lost :
    ∃ r : RabbitMQ (List Dial × List RabbitConsumerProxy),
      Survive ([.consume { queue := "orders" }, .connClosed].flatMap registered)
        (reconnect scriptedBroker.recording r) := by
  refine ⟨_, run_consumers_survive scriptedBroker [.ready, .ready] {} "rabbitmq" false ""
    (fun _ => {}) [.consume { queue := "orders" }, .connClosed] .notice ?_ rfl rfl⟩
  refine Throughout.cons ⟨fun h => Bool.noConfusion h, ?_⟩ rfl ?_
  · intro cm hcm
    cases hcm
    decide
  refine Throughout.cons ⟨fun h => Bool.noConfusion h, fun cm hcm => by cases hcm⟩ rfl ?_
  refine Throughout.cons ⟨fun _ env env' queueInfo hc hq => ?_, fun cm hcm => by cases hcm⟩ rfl
    trivial
  cases hc
  cases hq
  exact .inr ⟨_, rfl, rfl⟩

/-- Two consumers are registered on a connected instance. Both are kept under the name of its
queue, so the second takes the place of the first, and the next connection does not start that. -/
theorem run_consumer_forgotten :
    ∃ r, run (step scriptedBroker.recording) (initConn scriptedBroker.recording
        (newRabbitMQ ([.ready, .ready], []) {} "rabbitmq" false "" fun _ => {}))
        [.consume { queue := "orders", consumerTag := "a" },
          .consume { queue := "orders", consumerTag := "b" }, .connClosed] = some r ∧
      r.conn = false ∧
      ¬ Survive ([.consume { queue := "orders", consumerTag := "a" },
          .consume { queue := "orders", consumerTag := "b" }, .connClosed].flatMap registered)
        (reconnect scriptedBroker.recording r) :=
  ⟨_, rfl, rfl, fun h => absurd h.length_le (by decide)⟩

end RabbitMQ
end Gocom
