import Gocom.JobPools
import Gocom.PulsarReplies
import Gocom.RabbitQueries
import Mathlib.Data.List.Nodup
import Mathlib.Data.List.Perm.Subperm

/-!
# Calls over Pulsar that wait for a reply

Every call of `QueryRPC` makes a response channel of its own, so what the callback of a reply sends
is received by the call whose message it found, or by nobody. A goroutine runs for each reply, and is
cut where others can intervene.
-/

namespace Gocom

open Runs

/-- What the goroutine of a reply does next. -/
inductive ReplyTask where
  | find (msg : MQConsumerMessage)
  | respond (msg : MQConsumerMessage) (m : ℕ)
  | send (msg : MQConsumerMessage) (m : ℕ)
  | forget (correlationID : String)

/-- The reply that a goroutine still has. -/
def ReplyTask.reply? : ReplyTask → Option MQConsumerMessage
  | .find msg | .respond msg _ | .send msg _ => some msg
  | .forget _ => none

/-- Calls are numbered, and call `i` publishes message `i`. What was delivered, and which call got
which reply, is recorded. -/
structure PulsarQueries where
  messages : ℕ → MQPublishMessage
  rpc : RpcInstance
  publishes : List ℕ := []
  phase : ℕ → CallPhase := fun _ => .idle
  callbacks : List (List ReplyTask) := []
  delivered : List MQConsumerMessage := []
  answers : List (ℕ × MQConsumerMessage) := []

namespace PulsarQueries

def setPhase (s : PulsarQueries) (i : ℕ) (p : CallPhase) : PulsarQueries :=
  { s with phase := fun k => if k = i then p else s.phase k }

def setMessage (s : PulsarQueries) (i : ℕ) (pm : MQPublishMessage) : PulsarQueries :=
  { s with messages := fun k => if k = i then pm else s.messages k }

inductive Event where
  /-- A call makes its response channel and gives its message to the loop. -/
  | query (i : ℕ)
  /-- The call reaches its select. -/
  | await (i : ℕ)
  /-- The message is published, and made answerable. -/
  | register (i : ℕ) (uuid : String)
  /-- A reply arrives. -/
  | deliver (msg : MQConsumerMessage)
  /-- The goroutine of a reply goes on. -/
  | move (k : ℕ)
  /-- The call receives what the goroutine sends on its channel. -/
  | handOver (k : ℕ)
  /-- The timer of a waiting call fires. -/
  | timeout (i : ℕ)

/-- `handleRPCCallback`, up to the next place where another goroutine can intervene. A send goes on
when the call receives. -/
def callbackStep (s : PulsarQueries) : ReplyTask → Option (PulsarQueries × List ReplyTask)
  | .find msg =>
    match s.rpc.rpcCallbacks msg.correlationID with
    | none => some (s, [])
    | some m => some (s, [.respond msg m])
  | .respond msg m =>
    some (s, [if (s.messages m).callbackEnabled then .send msg m else .forget msg.correlationID])
  | .send _ _ => none
  | .forget correlationID =>
    some ({ s with rpc := { s.rpc with rpcCallbacks := s.rpc.rpcCallbacks.delete correlationID } }, [])

def move (s : PulsarQueries) (k : ℕ) : Option PulsarQueries :=
  match s.callbacks[k]? with
  | some (t :: rest) =>
    (callbackStep s t).map fun p => { p.1 with callbacks := JobPools.replace s.callbacks k p.2 rest }
  | _ => none

def handOver (s : PulsarQueries) (k : ℕ) : Option PulsarQueries :=
  match s.callbacks[k]? with
  | some (.send msg m :: rest) =>
    if s.phase m = .waiting then
      some ({ s with
        callbacks := JobPools.replace s.callbacks k [.forget msg.correlationID] rest
        answers := s.answers ++ [(m, msg)] }.setPhase m (.returned msg))
    else none
  | _ => none

def step (s : PulsarQueries) : Event → Option PulsarQueries
  | .query i =>
    if s.phase i = .idle then
      some ({ s with publishes := s.publishes ++ [i] }.setMessage i
        { s.messages i with response := some i } |>.setPhase i .published)
    else none
  | .await i => if s.phase i = .published then some (s.setPhase i .waiting) else none
  | .register i uuid =>
    if i ∈ s.publishes ∧ uuid ≠ "" then
      let (rpc, messages) := s.rpc.ensureRPCMessage s.messages uuid i
      some { s with publishes := s.publishes.erase i, rpc, messages }
    else none
  | .deliver msg =>
    some { s with callbacks := s.callbacks ++ [[.find msg]], delivered := s.delivered ++ [msg] }
  | .move k => move s k
  | .handOver k => handOver s k
  | .timeout i =>
    if s.phase i = .waiting then
      some (s.setMessage i (s.messages i).onClosed |>.setPhase i .timedOut)
    else none

/-- No call has been made yet. -/
def start (messages : ℕ → MQPublishMessage) (topicName : String) : PulsarQueries :=
  { messages, rpc := ⟨topicName, .empty⟩ }

/-! ## Identifiers -/

/-- A goroutine only handles the reply for the message whose identifier it carries. -/
def Matches (messages : ℕ → MQPublishMessage) : ReplyTask → Prop
  | .find _ | .forget _ => True
  | .respond msg m | .send msg m =>
    (messages m).correlationID = msg.correlationID ∧ "" ≠ msg.correlationID

/-- Identifiers that something depends on are set, so they do not change any more. -/
structure Consistent (s : PulsarQueries) : Prop where
  registered : ∀ id m, s.rpc.rpcCallbacks id = some m → (s.messages m).correlationID = id ∧ "" ≠ id
  callbacks : ∀ t ∈ s.callbacks.flatten, Matches s.messages t
  answers : ∀ p ∈ s.answers, (s.messages p.1).correlationID = p.2.correlationID ∧ "" ≠ p.2.correlationID

/-- The messages after a step keep every identifier that was set. -/
def KeepsIds (messages messages' : ℕ → MQPublishMessage) : Prop :=
  ∀ m, "" ≠ (messages m).correlationID → (messages' m).correlationID = (messages m).correlationID

theorem Matches.keep {messages messages' : ℕ → MQPublishMessage} (hk : KeepsIds messages messages')
    {t : ReplyTask} (h : Matches messages t) : Matches messages' t := by
  cases t with
  | find msg | forget id => trivial
  | respond msg m | send msg m =>
    obtain ⟨hid, hne⟩ := h
    exact ⟨(hk m (hid ▸ hne)).trans hid, hne⟩

theorem Consistent.keep {s : PulsarQueries} (h : Consistent s) {messages : ℕ → MQPublishMessage}
    (hk : KeepsIds s.messages messages) : Consistent { s with messages } := by
  refine ⟨fun id m hm => ?_, fun t ht => (h.callbacks t ht).keep hk, fun p hp => ?_⟩
  · obtain ⟨hid, hne⟩ := h.registered id m hm
    exact ⟨(hk m (hid ▸ hne)).trans hid, hne⟩
  · obtain ⟨hid, hne⟩ := h.answers p hp
    exact ⟨(hk p.1 (hid ▸ hne)).trans hid, hne⟩

theorem setMessage_keepsIds (s : PulsarQueries) {i : ℕ} (pm : MQPublishMessage)
    (h : pm.correlationID = (s.messages i).correlationID) :
    KeepsIds s.messages (s.setMessage i pm).messages := by
  intro m _
  by_cases hm : m = i
  · subst hm
    exact (congrArg MQPublishMessage.correlationID (if_pos rfl)).trans h
  · exact congrArg MQPublishMessage.correlationID (if_neg hm)

theorem ensureRPCMessage_keepsIds (rpc : RpcInstance) (messages : ℕ → MQPublishMessage) (uuid : String)
    (i : ℕ) : KeepsIds messages (rpc.ensureRPCMessage messages uuid i).2 := by
  intro m hm
  by_cases hi : m = i
  · subst hi
    rw [RabbitMQ.ensureRPCMessage_message]
    exact if_neg hm
  · exact congrArg MQPublishMessage.correlationID (if_neg hi)

theorem Consistent.register {s : PulsarQueries} (h : Consistent s) {uuid : String} (hu : uuid ≠ "") (i : ℕ)
    (publishes : List ℕ) : Consistent { s with
      publishes
      rpc := (s.rpc.ensureRPCMessage s.messages uuid i).1
      messages := (s.rpc.ensureRPCMessage s.messages uuid i).2 } := by
  have hkept := h.keep (ensureRPCMessage_keepsIds s.rpc s.messages uuid i)
  refine ⟨fun id m hm => ?_, hkept.callbacks, hkept.answers⟩
  rcases RpcQueries.ensureRPCMessage_registered hu hm with hold | ⟨rfl, hid⟩
  · exact hkept.registered id m hold
  · exact hid

theorem mem_replace {ι : Type*} {pool : List (List ι)} {k : ℕ} {t : ι} {new rest : List ι} {x : ι}
    (hw : pool[k]? = some (t :: rest)) (hx : x ∈ (JobPools.replace pool k new rest).flatten) :
    x ∈ new ∨ x ∈ pool.flatten := by
  have hperm := JobPools.flatten_replace_perm hw new
  exact List.mem_append.mp (hperm.mem_iff.mp (List.mem_cons_of_mem t hx))

theorem callbackStep_consistent {s s' : PulsarQueries} {t : ReplyTask} {new : List ReplyTask}
    (h : Consistent s) (ht : Matches s.messages t) (hstep : callbackStep s t = some (s', new)) :
    Consistent s' ∧ s'.messages = s.messages ∧ ∀ x ∈ new, Matches s.messages x := by
  cases t with
  | find msg =>
    rw [callbackStep] at hstep
    cases hm : s.rpc.rpcCallbacks msg.correlationID with
    | none =>
      rw [hm] at hstep
      cases hstep
      exact ⟨h, rfl, fun x hx => absurd hx List.not_mem_nil⟩
    | some m =>
      rw [hm] at hstep
      cases hstep
      refine ⟨h, rfl, fun x hx => ?_⟩
      obtain rfl := List.mem_singleton.mp hx
      exact h.registered _ m hm
  | respond msg m =>
    cases hstep
    refine ⟨h, rfl, fun x hx => ?_⟩
    obtain rfl := List.mem_singleton.mp hx
    split_ifs
    · exact ht
    · trivial
  | send msg m => cases hstep
  | forget id =>
    cases hstep
    refine ⟨⟨fun id m hm => h.registered id m (GoMap.of_delete_eq_some hm).2, h.callbacks, h.answers⟩, rfl,
      fun x hx => absurd hx List.not_mem_nil⟩

theorem step_consistent {s s' : PulsarQueries} {e : Event} (h : Consistent s) (hs : step s e = some s') :
    Consistent s' := by
  cases e with
  | query i =>
    rw [step] at hs
    split_ifs at hs
    obtain rfl := Option.some.inj hs
    have hkept := Consistent.keep (s := { s with publishes := s.publishes ++ [i] })
      ⟨h.registered, h.callbacks, h.answers⟩
      (setMessage_keepsIds s { s.messages i with response := some i } rfl)
    exact ⟨hkept.registered, hkept.callbacks, hkept.answers⟩
  | await i =>
    rw [step] at hs
    split_ifs at hs
    obtain rfl := Option.some.inj hs
    exact ⟨h.registered, h.callbacks, h.answers⟩
  | register i uuid =>
    rw [step] at hs
    split_ifs at hs with hreg
    obtain rfl := Option.some.inj hs
    exact h.register hreg.2 i _
  | deliver msg =>
    obtain rfl := Option.some.inj hs
    refine ⟨h.registered, fun t ht => ?_, h.answers⟩
    rw [JobPools.flatten_concat] at ht
    rcases List.mem_append.mp ht with ht | ht
    · exact h.callbacks t ht
    · obtain rfl := List.mem_singleton.mp ht
      trivial
  | move k =>
    rw [step, move] at hs
    split at hs
    · next t rest hw =>
      obtain ⟨⟨s₁, new⟩, hstep, rfl⟩ := Option.map_eq_some_iff.mp hs
      have hmem : t ∈ s.callbacks.flatten :=
        List.mem_flatten.mpr ⟨_, List.mem_of_getElem? hw, List.mem_cons_self⟩
      obtain ⟨h₁, hmessages, hnew⟩ := callbackStep_consistent h (h.callbacks t hmem) hstep
      refine ⟨h₁.registered, fun x hx => ?_, h₁.answers⟩
      rw [hmessages]
      exact (mem_replace hw hx).elim (hnew x) (h.callbacks x)
    · cases hs
  | handOver k =>
    rw [step, handOver] at hs
    split at hs
    · next msg m rest hw =>
      split_ifs at hs with hwaiting
      obtain rfl := Option.some.inj hs
      have hmem : ReplyTask.send msg m ∈ s.callbacks.flatten :=
        List.mem_flatten.mpr ⟨_, List.mem_of_getElem? hw, List.mem_cons_self⟩
      refine ⟨h.registered, fun x hx => ?_, fun p hp => ?_⟩
      · rcases mem_replace hw hx with hx | hx
        · obtain rfl := List.mem_singleton.mp hx
          trivial
        · exact h.callbacks x hx
      · rcases List.mem_append.mp hp with hp | hp
        · exact h.answers p hp
        · obtain rfl := List.mem_singleton.mp hp
          exact h.callbacks _ hmem
    · cases hs
  | timeout i =>
    rw [step] at hs
    split_ifs at hs
    obtain rfl := Option.some.inj hs
    have hkept := h.keep (setMessage_keepsIds s (s.messages i).onClosed rfl)
    exact ⟨hkept.registered, hkept.callbacks, hkept.answers⟩

/-! ## Replies -/

/-- The replies the goroutines still have. -/
def held (s : PulsarQueries) : List MQConsumerMessage := s.callbacks.flatten.filterMap ReplyTask.reply?

/-- The calls that returned a reply are those that were handed one, each once, and no reply is handed
over or still had more often than it was delivered. -/
structure Accounted (s : PulsarQueries) : Prop where
  phases : ∀ i resp, s.phase i = .returned resp ↔ (i, resp) ∈ s.answers
  calls : (s.answers.map Prod.fst).Nodup
  replies : (s.answers.map Prod.snd ++ s.held).Subperm s.delivered

theorem Accounted.setPhase {s : PulsarQueries} (h : Accounted s) {i : ℕ} {p : CallPhase}
    (hold : ∀ resp, s.phase i ≠ .returned resp) (hnew : ∀ resp, p ≠ .returned resp) :
    Accounted (s.setPhase i p) := by
  refine ⟨fun k resp => ?_, h.calls, h.replies⟩
  rw [← show s.phase k = .returned resp ↔ (k, resp) ∈ (s.setPhase i p).answers from h.phases k resp]
  by_cases hk : k = i
  · subst hk
    have hset : (s.setPhase k p).phase k = p := if_pos rfl
    rw [hset]
    exact iff_of_false (hnew resp) (hold resp)
  · have hset : (s.setPhase i p).phase k = s.phase k := if_neg hk
    rw [hset]

theorem callbackStep_held {s s' : PulsarQueries} {t : ReplyTask} {new : List ReplyTask}
    (hstep : callbackStep s t = some (s', new)) :
    (new.filterMap ReplyTask.reply?).Sublist ([t].filterMap ReplyTask.reply?) ∧ s'.phase = s.phase ∧
      s'.answers = s.answers ∧ s'.delivered = s.delivered := by
  cases t with
  | find msg =>
    rw [callbackStep] at hstep
    cases hm : s.rpc.rpcCallbacks msg.correlationID with
    | none =>
      rw [hm] at hstep
      cases hstep
      exact ⟨List.nil_sublist _, rfl, rfl, rfl⟩
    | some m =>
      rw [hm] at hstep
      cases hstep
      exact ⟨List.Sublist.refl _, rfl, rfl, rfl⟩
  | respond msg m =>
    cases hstep
    refine ⟨?_, rfl, rfl, rfl⟩
    split_ifs
    · exact List.Sublist.refl _
    · exact List.nil_sublist _
  | send msg m => cases hstep
  | forget id =>
    cases hstep
    exact ⟨List.nil_sublist _, rfl, rfl, rfl⟩

theorem move_accounted {s s' : PulsarQueries} {k : ℕ} (h : Accounted s) (hs : move s k = some s') :
    Accounted s' := by
  rw [move] at hs
  split at hs
  · next t rest hw =>
    obtain ⟨⟨s₁, new⟩, hstep, rfl⟩ := Option.map_eq_some_iff.mp hs
    obtain ⟨hnew, hphase, hanswers, hdelivered⟩ := callbackStep_held hstep
    have hperm := JobPools.filterMap_replace_perm ReplyTask.reply? hw new
    have hheld : ((JobPools.replace s.callbacks k new rest).flatten.filterMap ReplyTask.reply?).Subperm s.held := by
      refine (List.subperm_append_left ([t].filterMap ReplyTask.reply?)).mp ?_
      exact hperm.subperm.trans ((List.subperm_append_right _).mpr hnew.subperm)
    refine ⟨fun i resp => ?_, ?_, ?_⟩
    · rw [hphase, hanswers]
      exact h.phases i resp
    · rw [hanswers]
      exact h.calls
    · rw [hanswers, hdelivered]
      exact ((List.subperm_append_left _).mpr hheld).trans h.replies
  · cases hs

theorem handOver_accounted {s s' : PulsarQueries} {k : ℕ} (h : Accounted s) (hs : handOver s k = some s') :
    Accounted s' := by
  rw [handOver] at hs
  split at hs
  · next msg m rest hw =>
    split_ifs at hs with hwaiting
    obtain rfl := Option.some.inj hs
    have hfresh : m ∉ s.answers.map Prod.fst := by
      intro hm
      obtain ⟨⟨i, resp⟩, hp, rfl⟩ := List.mem_map.mp hm
      rw [(h.phases i resp).mpr hp] at hwaiting
      cases hwaiting
    have hperm := JobPools.filterMap_replace_perm ReplyTask.reply? hw [.forget msg.correlationID]
    refine ⟨fun i resp => ?_, ?_, ?_⟩
    · change (if i = m then CallPhase.returned msg else s.phase i) = .returned resp ↔
        (i, resp) ∈ s.answers ++ [(m, msg)]
      rw [List.mem_append, List.mem_singleton, ← h.phases i resp]
      split_ifs with hi
      · subst hi
        rw [hwaiting]
        simp [eq_comm]
      · simp [hi]
    · change ((s.answers ++ [(m, msg)]).map Prod.fst).Nodup
      rw [List.map_append, List.nodup_append]
      refine ⟨h.calls, List.nodup_singleton m, ?_⟩
      rintro a ha _ hm rfl
      obtain rfl := List.mem_singleton.mp hm
      exact hfresh ha
    · change ((s.answers ++ [(m, msg)]).map Prod.snd ++ (JobPools.replace s.callbacks k
        [.forget msg.correlationID] rest).flatten.filterMap ReplyTask.reply?).Subperm s.delivered
      rw [List.map_append, List.append_assoc]
      exact (hperm.append_left _).subperm.trans h.replies
  · cases hs

theorem step_accounted {s s' : PulsarQueries} {e : Event} (h : Accounted s) (hs : step s e = some s') :
    Accounted s' := by
  cases e with
  | query i =>
    rw [step] at hs
    split_ifs at hs with hidle
    obtain rfl := Option.some.inj hs
    have hkept : Accounted ({ s with publishes := s.publishes ++ [i] }.setMessage i
        { s.messages i with response := some i }) := ⟨h.phases, h.calls, h.replies⟩
    refine hkept.setPhase (fun resp hr => ?_) (fun resp hr => ?_)
    · exact CallPhase.noConfusion (hidle.symm.trans hr)
    · cases hr
  | await i =>
    rw [step] at hs
    split_ifs at hs with hpublished
    obtain rfl := Option.some.inj hs
    refine h.setPhase (fun resp hr => ?_) (fun resp hr => ?_)
    · exact CallPhase.noConfusion (hpublished.symm.trans hr)
    · cases hr
  | register i uuid =>
    rw [step] at hs
    split_ifs at hs
    obtain rfl := Option.some.inj hs
    exact ⟨h.phases, h.calls, h.replies⟩
  | deliver msg =>
    obtain rfl := Option.some.inj hs
    refine ⟨h.phases, h.calls, ?_⟩
    have hheld : held { s with callbacks := s.callbacks ++ [[.find msg]], delivered := s.delivered ++ [msg] } =
        s.held ++ [msg] := by
      rw [held, JobPools.flatten_concat, List.filterMap_append]
      rfl
    rw [hheld, ← List.append_assoc]
    exact (List.subperm_append_right _).mpr h.replies
  | move k => exact move_accounted h hs
  | handOver k => exact handOver_accounted h hs
  | timeout i =>
    rw [step] at hs
    split_ifs at hs with hwaiting
    obtain rfl := Option.some.inj hs
    have hkept : Accounted (s.setMessage i (s.messages i).onClosed) := ⟨h.phases, h.calls, h.replies⟩
    refine hkept.setPhase (fun resp hr => ?_) (fun resp hr => ?_)
    · exact CallPhase.noConfusion (hwaiting.symm.trans hr)
    · cases hr

/-! ## Runs -/

/-- The reply that an event delivers. -/
def Event.reply? : Event → Option MQConsumerMessage
  | .deliver msg => some msg
  | _ => none

theorem callbackStep_delivered {s s' : PulsarQueries} {t : ReplyTask} {new : List ReplyTask}
    (hstep : callbackStep s t = some (s', new)) : s'.delivered = s.delivered :=
  (callbackStep_held hstep).2.2.2

theorem step_delivered {s s' : PulsarQueries} {e : Event} (hs : step s e = some s') :
    s'.delivered = s.delivered ++ e.reply?.toList := by
  cases e with
  | query i | await i | register i uuid | timeout i =>
    rw [step] at hs
    split_ifs at hs
    obtain rfl := Option.some.inj hs
    exact (List.append_nil _).symm
  | deliver msg =>
    obtain rfl := Option.some.inj hs
    rfl
  | move k =>
    rw [step, move] at hs
    split at hs
    · obtain ⟨⟨s₁, new⟩, hstep, rfl⟩ := Option.map_eq_some_iff.mp hs
      exact (callbackStep_delivered hstep).trans (List.append_nil _).symm
    · cases hs
  | handOver k =>
    rw [step, handOver] at hs
    split at hs
    · split_ifs at hs
      obtain rfl := Option.some.inj hs
      exact (List.append_nil _).symm
    · cases hs

theorem run_delivered {es : List Event} {s t : PulsarQueries} (h : run step s es = some t) :
    t.delivered = s.delivered ++ es.filterMap Event.reply? := by
  induction es generalizing s with
  | nil =>
    cases h
    exact (List.append_nil _).symm
  | cons e es ih =>
    obtain ⟨u, hu, hrun⟩ := run_cons_eq_some.mp h
    rw [ih hrun, step_delivered hu, List.append_assoc]
    cases hask : e.reply? with
    | none => rw [List.filterMap_cons_none hask]; rfl
    | some msg => rw [List.filterMap_cons_some hask]; rfl

theorem consistent_start (messages : ℕ → MQPublishMessage) (topicName : String) :
    Consistent (start messages topicName) :=
  ⟨fun _ _ h => (nomatch h), fun _ h => absurd h List.not_mem_nil, fun _ h => absurd h List.not_mem_nil⟩

theorem accounted_start (messages : ℕ → MQPublishMessage) (topicName : String) :
    Accounted (start messages topicName) :=
  ⟨fun _ _ => iff_of_false (fun h => CallPhase.noConfusion h) List.not_mem_nil, List.nodup_nil, List.nil_subperm⟩

/-- After any interleaving each call has returned at most one reply, which carries the identifier of
its message, and no reply has been returned more often than it was delivered. -/
theorem run_answers (messages : ℕ → MQPublishMessage) (topicName : String) (es : List Event)
    {s : PulsarQueries} (hrun : run step (start messages topicName) es = some s) :
    (∀ i resp, s.phase i = .returned resp ↔ (i, resp) ∈ s.answers) ∧
      (s.answers.map Prod.fst).Nodup ∧
      (∀ p ∈ s.answers, p.2.correlationID = (s.messages p.1).correlationID ∧ "" ≠ p.2.correlationID) ∧
      (s.answers.map Prod.snd).Subperm (es.filterMap Event.reply?) := by
  have hconsistent : Consistent s := invariant_of_run (fun _ _ _ h ht => step_consistent h ht)
    (consistent_start messages topicName) hrun
  have haccounted : Accounted s := invariant_of_run (fun _ _ _ h ht => step_accounted h ht)
    (accounted_start messages topicName) hrun
  refine ⟨haccounted.phases, haccounted.calls, fun p hp => ?_, ?_⟩
  · obtain ⟨hid, hne⟩ := hconsistent.answers p hp
    exact ⟨hid.symm, hne⟩
  · have hdelivered := run_delivered hrun
    have hreplies := haccounted.replies
    rw [hdelivered] at hreplies
    exact (List.sublist_append_left _ _).subperm.trans hreplies

/-- Two calls wait, and the reply to the second reaches it. -/
theorem run_answers_second : ∃ s, run step (start RpcQueries.numbered "rpc") [.query 0, .query 1, .await 0,
    .await 1, .register 0 "u", .register 1 "v", .deliver { correlationID := "aa" }, .move 0, .move 0,
    .handOver 0] = some s ∧ s.answers = [(1, { correlationID := "aa" })] ∧ (s.answers.map Prod.fst).Nodup :=
  ⟨_, rfl, rfl, (run_answers RpcQueries.numbered "rpc" [.query 0, .query 1, .await 0, .await 1, .register 0 "u",
    .register 1 "v", .deliver { correlationID := "aa" }, .move 0, .move 0, .handOver 0] rfl).2.1⟩

end PulsarQueries
end Gocom
