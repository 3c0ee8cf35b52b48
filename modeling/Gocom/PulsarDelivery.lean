import Gocom.PulsarRuns

/-!
# Where the messages of a Pulsar instance are

Whatever the order in which its goroutines take turns, a message that an instance was given is with
one of them, waits, was sent or was refused a producer. What waits is swept once for each
connection, so a goroutine that saw no client and keeps its message after the sweep keeps it from
being sent as long as the connection lasts.
-/

namespace Gocom
namespace PulsarMQ

open Runs

variable {σ : Type*} {b : PulsarBroker σ}

theorem init_books (r : PulsarMQ σ) : (init b r).books = r.books := by
  rw [init]
  split_ifs with hdriver
  · rfl
  · cases b.formatConnectionDSN r.env with
    | mk env err => cases err <;> rfl

/-- A goroutine that moves panics or performs its task. -/
theorem move_eq_some {s t : System σ} {i : ℕ} (h : move b s i = some t) :
    ∃ k rest, s.pool[i]? = some (k :: rest) ∧
      ((perform b s.shared k = none ∧ t = { s with panicked := true }) ∨
        ∃ r new, perform b s.shared k = some (r, new) ∧
          t = { s with
            shared := r, pool := JobPools.replace s.pool i new rest, swept := s.swept || k.sweeps }) := by
  rw [move] at h
  split at h
  · next k rest hw =>
    refine ⟨k, rest, hw, ?_⟩
    cases hp : perform b s.shared k with
    | none =>
      simp only [hp] at h
      exact .inl ⟨rfl, (Option.some.inj h).symm⟩
    | some p =>
      simp only [hp] at h
      exact .inr ⟨p.1, p.2, rfl, (Option.some.inj h).symm⟩
  · cases h

/-- Every message is with a goroutine or in the books. -/
def Balanced (s : System σ) : Prop :=
  (messagesOf s.taken).Perm (messagesOf s.pool.flatten ++ s.shared.books.messages)

theorem take_balanced {s : System σ} (h : Balanced s) (t : Task) : Balanced (s.take t) := by
  have htaken : messagesOf (s.taken ++ [t]) = messagesOf s.taken ++ messagesOf [t] := List.filterMap_append
  have hpool : messagesOf (s.pool ++ [[t]]).flatten = messagesOf s.pool.flatten ++ messagesOf [t] := by
    rw [JobPools.flatten_concat]
    exact List.filterMap_append
  change (messagesOf (s.taken ++ [t])).Perm (messagesOf (s.pool ++ [[t]]).flatten ++ s.shared.books.messages)
  rw [htaken, hpool, List.append_assoc]
  exact (h.append_right _).trans (by rw [List.append_assoc]; exact List.perm_append_comm.append_left _)

theorem move_balanced {s t : System σ} {i : ℕ} (h : Balanced s) (ht : move b s i = some t) : Balanced t := by
  obtain ⟨k, rest, hw, ⟨-, rfl⟩ | ⟨r, new, hp, rfl⟩⟩ := move_eq_some ht
  · exact h
  · exact h.trans (JobPools.exchange_perm (JobPools.filterMap_replace_perm Task.message? hw new)
      (perform_effect b hp).messages_perm).symm

theorem act_of_step {s t : System σ} {e : Interleaving} (h : step b s e = some t) : act b s e = some t := by
  rw [step] at h
  split_ifs at h
  exact h

theorem step_balanced {s t : System σ} {e : Interleaving} (h : Balanced s) (ht : step b s e = some t) :
    Balanced t := by
  have hact := act_of_step ht
  cases e with
  | publish m | consume cm => exact Option.some.inj hact ▸ take_balanced h _
  | move i => exact move_balanced h hact
  | reconnect =>
    rw [act] at hact
    split_ifs at hact
    obtain rfl := Option.some.inj hact
    rw [Balanced, PulsarMQ.reconnect, init_books]
    exact h
  | connected =>
    rw [act] at hact
    split_ifs at hact
    obtain rfl := Option.some.inj hact
    rw [Balanced, JobPools.flatten_concat]
    have hpool : messagesOf (s.pool.flatten ++ [.sweepConsumers, .sweepPublishes]) =
        messagesOf s.pool.flatten := by
      rw [messagesOf, List.filterMap_append]
      exact List.append_nil _
    rw [hpool]
    exact h
  | done =>
    rw [act] at hact
    obtain rfl := Option.some.inj hact
    split_ifs <;> exact h
  | close => exact Option.some.inj hact ▸ h

theorem start_balanced (env : σ) (name driver path : String) (config : PulsarConfig)
    (trackerQueue : String) (messages : ℕ → MQPublishMessage) :
    Balanced (start b env name driver path config trackerQueue messages) := by
  rw [Balanced, start, init_books]
  exact List.Perm.refl _

/-! ## What is sent of a message -/

/-- What decides where a message goes, and what it says. -/
structure Texts where
  namespaceName : String
  topicName : String
  routingKey : ℕ → String
  body : ℕ → Bytes

def texts (r : PulsarMQ σ) : Texts :=
  ⟨r.namespaceName, r.topicName, fun m => (r.messages m).routingKey, fun m => (r.messages m).body⟩

theorem topicOf_congr {r r' : PulsarMQ σ} (h : r'.texts = r.texts) (m : ℕ) : r'.topicOf m = r.topicOf m := by
  have hnamespace : r'.namespaceName = r.namespaceName := congrArg Texts.namespaceName h
  have htopic : r'.topicName = r.topicName := congrArg Texts.topicName h
  have hkey : (r'.messages m).routingKey = (r.messages m).routingKey := congrFun (congrArg Texts.routingKey h) m
  rw [topicOf, topicOf, prepareTopicName, prepareTopicName, hnamespace, htopic, hkey]

/-- Making a message answerable does not change where it goes or what it says. -/
theorem ensureRPCMessage_texts (rpc : RpcInstance) (messages : ℕ → MQPublishMessage) (uuid : String)
    (m k : ℕ) : ((rpc.ensureRPCMessage messages uuid m).2 k).routingKey = (messages k).routingKey ∧
      ((rpc.ensureRPCMessage messages uuid m).2 k).body = (messages k).body := by
  by_cases hk : k = m
  · subst hk
    simp [RpcInstance.ensureRPCMessage]
  · simp [RpcInstance.ensureRPCMessage, hk]

theorem ensureResponse_texts (r : PulsarMQ σ) (m : ℕ) : (ensureResponse b r m).texts = r.texts := by
  have hrpc : ∀ (env : σ) (rpc rpc' : PulsarRpc) (uuid : String),
      ({ r with env, rpc := some rpc', messages := (rpc.ensureRPCMessage r.messages uuid m).2 } :
        PulsarMQ σ).texts = r.texts := by
    intro env rpc rpc' uuid
    simp only [texts, PulsarRpc.ensureRPCMessage, ensureRPCMessage_texts]
  rw [ensureResponse]
  split_ifs with hresponse
  · rfl
  · rw [getRPCInstance]
    cases r.rpc with
    | some rpc => exact hrpc _ rpc _ _
    | none =>
      cases b.rpcName r.env with
      | mk env name =>
        cases name with
        | none => rfl
        | some name => exact hrpc _ _ _ _

/-- A message goes to its own topic and says what it said. -/
def Delivers (tx : Texts) (r : PulsarMQ σ) : Prop :=
  r.texts = tx ∧ ∀ h ∈ r.sent, h.topic = r.topicOf h.message ∧ h.content.payload = tx.body h.message

theorem Delivers.congr {tx : Texts} {r r' : PulsarMQ σ} (h : Delivers tx r) (htexts : r'.texts = r.texts)
    (hsent : r'.sent = r.sent) : Delivers tx r' := by
  refine ⟨htexts.trans h.1, fun x hx => ?_⟩
  rw [topicOf_congr htexts]
  exact h.2 x (hsent ▸ hx)

theorem handOver_delivers {tx : Texts} {r r' : PulsarMQ σ} {m : ℕ} (hr : Delivers tx r)
    (h : handOver b r m (r.topicOf m) = some r') : Delivers tx r' := by
  have hsent : r'.sent = r.sent ++ [⟨m, r.topicOf m, producerMessage ((ensureResponse b r m).messages m)⟩] :=
    congrArg Books.sent (handOver_books b h)
  have hresponse := ensureResponse_texts (b := b) r m
  have htexts : r'.texts = r.texts := by
    rw [handOver] at h
    obtain ⟨env, producers, pendingReplies, statuses, rfl⟩ := afterPublish_frame b h
    exact hresponse
  refine ⟨htexts.trans hr.1, fun x hx => ?_⟩
  rw [topicOf_congr htexts]
  rw [hsent, List.mem_append, List.mem_singleton] at hx
  rcases hx with hx | rfl
  · exact hr.2 x hx
  · have hbody := congrFun (congrArg Texts.body hresponse) m
    exact ⟨rfl, hbody.trans (congrFun (congrArg Texts.body hr.1) m)⟩

theorem perform_delivers {tx : Texts} {r r' : PulsarMQ σ} {t : Task} {new : List Task}
    (hr : Delivers tx r) (h : perform b r t = some (r', new)) : Delivers tx r' := by
  cases t with
  | publish m | keepPublish m | consume cm | keepConsumer cm | sweepConsumers | sweepPublishes =>
    cases h
    exact hr.congr rfl rfl
  | findProducer m =>
    rw [perform] at h
    split_ifs at h <;> cases h <;> exact hr.congr rfl rfl
  | createProducer m =>
    rw [perform] at h
    cases hc : PulsarMQ.createProducer b r (r.topicOf m) with
    | none => rw [hc] at h; cases h
    | some p =>
      obtain ⟨r₁, result⟩ := p
      obtain ⟨env, producers, rfl⟩ := createProducer_frame b hc
      rw [hc] at h
      cases result <;> cases h <;> exact hr.congr rfl rfl
  | send m =>
    obtain ⟨r₁, hover, heq⟩ := Option.map_eq_some_iff.mp h
    cases heq
    exact handOver_delivers hr hover
  | findConsumer cm =>
    rw [perform] at h
    split_ifs at h with hfound <;> cases h <;> exact hr.congr rfl rfl
  | subscribe cm =>
    obtain ⟨⟨r₁, err⟩, hsub, heq⟩ := Option.map_eq_some_iff.mp h
    cases heq
    rw [PulsarMQ.subscribe] at hsub
    split_ifs at hsub with hclient
    cases ho : consumerOptions b r (r.prepareTopicName cm.queue) cm with
    | mk env options =>
      cases hs : b.subscribe env options with
      | mk env result =>
        simp only [ho, hs] at hsub
        cases result <;> cases hsub <;> exact hr.congr rfl rfl

theorem init_delivers {tx : Texts} {r : PulsarMQ σ} (hr : Delivers tx r) : Delivers tx (init b r) := by
  refine hr.congr ?_ (congrArg Books.sent (init_books r))
  rw [init]
  split_ifs with hdriver
  · rfl
  · cases b.formatConnectionDSN r.env with
    | mk env err => cases err <;> rfl

theorem step_delivers {tx : Texts} {s t : System σ} {e : Interleaving} (hs : Delivers tx s.shared)
    (ht : step b s e = some t) : Delivers tx t.shared := by
  have hact := act_of_step ht
  cases e with
  | publish m | consume cm => exact Option.some.inj hact ▸ hs
  | move i =>
    obtain ⟨k, rest, hw, ⟨-, rfl⟩ | ⟨r, new, hp, rfl⟩⟩ := move_eq_some hact
    · exact hs
    · exact perform_delivers hs hp
  | reconnect =>
    rw [act] at hact
    split_ifs at hact
    obtain rfl := Option.some.inj hact
    exact init_delivers (hs.congr rfl rfl)
  | connected =>
    rw [act] at hact
    split_ifs at hact
    obtain rfl := Option.some.inj hact
    exact hs.congr rfl rfl
  | done =>
    rw [act] at hact
    obtain rfl := Option.some.inj hact
    split_ifs
    · exact hs.congr rfl rfl
    · exact hs
  | close => exact Option.some.inj hact ▸ hs.congr rfl rfl

/-! ## Runs -/

/-- The task that an event gives to a goroutine. -/
def Interleaving.task? : Interleaving → Option Task
  | .publish m => some (.publish m)
  | .consume cm => some (.consume cm)
  | _ => none

/-- The message that an event gives to the instance. -/
def Interleaving.message? : Interleaving → Option ℕ
  | .publish m => some m
  | _ => none

theorem step_taken {s t : System σ} {e : Interleaving} (ht : step b s e = some t) :
    t.taken = s.taken ++ e.task?.toList := by
  have hact := act_of_step ht
  cases e with
  | publish m | consume cm => exact Option.some.inj hact ▸ rfl
  | move i =>
    obtain ⟨k, rest, hw, ⟨-, rfl⟩ | ⟨r, new, hp, rfl⟩⟩ := move_eq_some hact <;>
      exact (List.append_nil _).symm
  | reconnect | connected =>
    rw [act] at hact
    split_ifs at hact
    obtain rfl := Option.some.inj hact
    exact (List.append_nil _).symm
  | done =>
    rw [act] at hact
    obtain rfl := Option.some.inj hact
    split_ifs <;> exact (List.append_nil _).symm
  | close => exact Option.some.inj hact ▸ (List.append_nil _).symm

theorem run_taken {es : List Interleaving} {s t : System σ} (h : run (step b) s es = some t) :
    t.taken = s.taken ++ es.filterMap Interleaving.task? := by
  induction es generalizing s with
  | nil =>
    cases h
    exact (List.append_nil _).symm
  | cons e es ih =>
    obtain ⟨u, hu, hrun⟩ := run_cons_eq_some.mp h
    rw [ih hrun, step_taken hu, List.append_assoc]
    cases hask : e.task? with
    | none => rw [List.filterMap_cons_none hask]; rfl
    | some k => rw [List.filterMap_cons_some hask]; rfl

theorem messagesOf_tasks (es : List Interleaving) :
    messagesOf (es.filterMap Interleaving.task?) = es.filterMap Interleaving.message? := by
  rw [messagesOf, List.filterMap_filterMap]
  congr 1
  funext e
  cases e <;> rfl

/-! ## What waits on a connection -/

/-- No message is kept when what waited for the connection has been swept. -/
def InTime (s : System σ) : Interleaving → Prop
  | .move i => ∀ m rest, s.pool[i]? = some (.keepPublish m :: rest) →
      s.shared.client = true → s.swept = false
  | _ => True

/-- On a connection that has been swept no message waits. -/
def Delivered (s : System σ) : Prop :=
  s.shared.client = true → s.swept = true →
    (messagesOf s.taken).Perm
      (messagesOf s.pool.flatten ++ (s.shared.sent.map SentMessage.message ++ s.shared.rejected))

theorem delivered_iff {s : System σ} (h : Balanced s) :
    Delivered s ↔ (s.shared.client = true → s.swept = true → s.shared.pendingPublishes = []) := by
  refine forall_congr' fun _ => forall_congr' fun _ => ⟨fun hperm => ?_, fun hnil => ?_⟩
  · have hlength := hperm.length_eq.symm.trans h.length_eq
    simp only [Books.messages, books, List.length_append] at hlength
    exact List.eq_nil_of_length_eq_zero (by omega)
  · rw [Balanced, Books.messages, books, hnil, List.nil_append] at h
    exact h

theorem init_client (r : PulsarMQ σ) : (init b r).client = r.client := congrArg Books.client (init_books r)

theorem Effect.client {bk bk' : Books} {t : Task} {new : List Task} (h : Effect bk t new bk') :
    bk'.client = bk.client := by
  cases h <;> rfl

/-- A task that neither keeps nor sweeps messages leaves those that wait alone. -/
theorem Effect.pendingPublishes {bk bk' : Books} {t : Task} {new : List Task} (h : Effect bk t new bk')
    (hkeep : ∀ m, t ≠ .keepPublish m) (hsweep : t ≠ .sweepPublishes) :
    bk'.pendingPublishes = bk.pendingPublishes := by
  cases h with
  | keepPublish ht => exact absurd ht (hkeep _)
  | sweepPublishes ht => exact absurd ht hsweep
  | message | send | reject | consumer | keepConsumer | refuse | attach | subscribe | sweepConsumers => rfl

theorem Task.sweeps_of_ne {t : Task} (h : t ≠ .sweepPublishes) : t.sweeps = false := by
  cases t <;> first | rfl | exact absurd rfl h

theorem move_delivered_iff {s t : System σ} {i : ℕ} (hs : Balanced s) (hd : Delivered s)
    (ht : move b s i = some t) : InTime s (.move i) ↔ Delivered t := by
  rw [delivered_iff (move_balanced hs ht)]
  rw [delivered_iff hs] at hd
  obtain ⟨k, rest, hw, hmoved⟩ := move_eq_some ht
  have hin : InTime s (.move i) ↔ ∀ m, k = .keepPublish m → s.shared.client = true → s.swept = false := by
    constructor
    · rintro h m rfl
      exact h m rest hw
    · intro h m rest' hw'
      obtain ⟨rfl, -⟩ := List.cons_eq_cons.mp (Option.some.inj (hw.symm.trans hw'))
      exact h m rfl
  rw [hin]
  rcases hmoved with ⟨hpanic, rfl⟩ | ⟨r, new, hp, rfl⟩
  · refine iff_of_true ?_ hd
    rintro m rfl
    cases hpanic
  · have heffect := perform_effect b hp
    have hclient : r.client = s.shared.client := heffect.client
    dsimp only
    rw [hclient]
    by_cases hkeep : ∃ m, k = .keepPublish m
    · obtain ⟨m, rfl⟩ := hkeep
      have hpending : r.pendingPublishes ≠ [] := by
        cases hp
        exact List.append_ne_nil_of_right_ne_nil _ (List.cons_ne_nil m [])
      constructor
      · intro h hc hsw
        rw [h m rfl hc] at hsw
        cases hsw
      · rintro h m' - hc
        by_contra hsw
        exact hpending (h hc (by simpa [Task.sweeps] using hsw))
    · refine iff_of_true (fun m hm => absurd ⟨m, hm⟩ hkeep) fun hc hsw => ?_
      by_cases hsweep : k = .sweepPublishes
      · subst hsweep
        cases hp
        rfl
      · have hsame : r.pendingPublishes = s.shared.pendingPublishes :=
          heffect.pendingPublishes (fun m hm => hkeep ⟨m, hm⟩) hsweep
        rw [hsame]
        rw [Task.sweeps_of_ne hsweep, Bool.or_false] at hsw
        exact hd hc hsw

theorem step_delivered_iff {s t : System σ} {e : Interleaving} (hs : Balanced s) (hd : Delivered s)
    (ht : step b s e = some t) : InTime s e ↔ Delivered t := by
  have hbalanced := step_balanced hs ht
  have hact := act_of_step ht
  cases e with
  | publish m | consume cm =>
    obtain rfl := Option.some.inj hact
    rw [delivered_iff hs] at hd
    exact iff_of_true trivial ((delivered_iff hbalanced).mpr hd)
  | move i => exact move_delivered_iff hs hd hact
  | reconnect =>
    rw [act] at hact
    split_ifs at hact with hidle
    obtain rfl := Option.some.inj hact
    refine iff_of_true trivial fun hc => ?_
    rw [PulsarMQ.reconnect, init_client, hidle.2] at hc
    cases hc
  | connected =>
    rw [act] at hact
    split_ifs at hact
    obtain rfl := Option.some.inj hact
    exact iff_of_true trivial fun _ hsw => absurd hsw Bool.false_ne_true
  | done =>
    rw [act] at hact
    obtain rfl := Option.some.inj hact
    split_ifs
    · exact iff_of_true trivial fun hc => absurd hc Bool.false_ne_true
    · exact iff_of_true trivial hd
  | close =>
    obtain rfl := Option.some.inj hact
    exact iff_of_true trivial fun hc => absurd hc Bool.false_ne_true

/-! ## The runs of an instance -/

section

variable (b) (env : σ) (name driver path : String) (config : PulsarConfig) (trackerQueue : String)
  (messages : ℕ → MQPublishMessage)

theorem run_balanced {es : List Interleaving} {s : System σ}
    (hrun : run (step b) (start b env name driver path config trackerQueue messages) es = some s) :
    Balanced s :=
  invariant_of_run (fun _ _ _ h ht => step_balanced h ht)
    (start_balanced env name driver path config trackerQueue messages) hrun

/-- After any interleaving each message that was given to the instance is with a goroutine, waits,
was sent or was refused, as often as it was given; what was sent went to the topic of its message
and says what it says. -/
theorem run_loses_no_message (es : List Interleaving) {s : System σ}
    (hrun : run (step b) (start b env name driver path config trackerQueue messages) es = some s) :
    (es.filterMap Interleaving.message?).Perm
        (messagesOf s.pool.flatten ++ (s.shared.pendingPublishes ++
          s.shared.sent.map SentMessage.message ++ s.shared.rejected)) ∧
      ∀ h ∈ s.shared.sent,
        h.topic = (newPulsarMQ env name driver path config trackerQueue messages).topicOf h.message ∧
          h.content.payload = (messages h.message).body := by
  constructor
  · have hbalanced := run_balanced b env name driver path config trackerQueue messages hrun
    have htaken := run_taken hrun
    rw [Balanced, htaken, start, List.nil_append, messagesOf_tasks] at hbalanced
    exact hbalanced
  · have hstart : Delivers (texts (newPulsarMQ env name driver path config trackerQueue messages))
        (start b env name driver path config trackerQueue messages).shared :=
      init_delivers ⟨rfl, fun h hh => absurd hh List.not_mem_nil⟩
    have hs : Delivers (texts (newPulsarMQ env name driver path config trackerQueue messages)) s.shared :=
      invariant_of_run (fun _ _ _ h ht => step_delivers h ht) hstart hrun
    intro h hh
    obtain ⟨htopic, hpayload⟩ := hs.2 h hh
    exact ⟨htopic.trans (topicOf_congr hs.1 _), hpayload⟩

/-- On every connection that has been swept all messages have been sent or refused or are with a
goroutine exactly when no goroutine that had seen no client keeps its message after the sweep. -/
theorem run_delivers_iff (es : List Interleaving) {s : System σ}
    (hrun : run (step b) (start b env name driver path config trackerQueue messages) es = some s) :
    Throughout (step b) InTime (start b env name driver path config trackerQueue messages) es ↔
      ∀ past rest t, es = past ++ rest →
        run (step b) (start b env name driver path config trackerQueue messages) past = some t → Delivered t := by
  have hbalanced : ∀ (t : System σ) e u, Balanced t → step b t e = some u → Balanced u :=
    fun _ _ _ h ht => step_balanced h ht
  refine throughout_iff_always hbalanced (fun _ _ _ h hd ht => step_delivered_iff h hd ht)
    (start_balanced env name driver path config trackerQueue messages) ?_ hrun
  intro hc
  rw [start, init_client] at hc
  cases hc

end

/-- A broker that grants everything. -/
def grantingPulsar : PulsarBroker Unit where
  formatConnectionDSN _ := ((), none)
  createProducer _ _ := ((), none)
  subscribe _ _ := ((), none)
  sendAsync _ _ _ := ()
  rpcName _ := ((), some "host")
  genLoweruuid _ := ((), "uuid")
  ack _ _ := ()
  rangeConsumers _ cms := cms
  range_perm _ cms := List.Perm.refl cms

/-- A message that came before the connection is swept and sent. -/
theorem run_loses_no_message_swept :
    ∃ s : System Unit, s.shared.sent.map SentMessage.message = [0] ∧ [0].Perm
      (messagesOf s.pool.flatten ++ (s.shared.pendingPublishes ++
        s.shared.sent.map SentMessage.message ++ s.shared.rejected)) :=
  ⟨_, rfl, (run_loses_no_message grantingPulsar () "" "pulsar" "" { topic := "t" } "" (fun _ => {})
    [.publish 0, .move 0, .move 0, .connected, .move 1, .move 1, .move 1, .move 1, .move 1, .move 1] rfl).1⟩

/-- The loop sees no client, the connection is made and swept, and then the loop keeps its message. -/
def beforeKeeping : List Interleaving := [.publish 0, .move 0, .connected, .move 1, .move 1]

theorem run_delivers_iff_late : ¬ ∀ past rest t, beforeKeeping ++ [.move 0] = past ++ rest →
    run (step grantingPulsar) (start grantingPulsar () "" "pulsar" "" { topic := "t" } "" fun _ => {}) past =
      some t → Delivered t := by
  refine mt (run_delivers_iff grantingPulsar () "" "pulsar" "" { topic := "t" } "" (fun _ => {})
    (beforeKeeping ++ [.move 0]) rfl).mpr fun h => ?_
  obtain ⟨-, hlate⟩ := throughout_append.mp h
  exact absurd ((hlate _ rfl).1 0 [] rfl rfl) (by decide)

end PulsarMQ
end Gocom
