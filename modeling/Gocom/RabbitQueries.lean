import Gocom.GuardedRuns
import Gocom.RabbitReplies
import Mathlib.Tactic.ByContra

/-!
# Calls that wait for a reply

Every call of `QueryRPC` waits on the one response channel of its instance, while the table of
callbacks is kept by correlation identifier. The callback of a reply finds the call it is
meant for and then sends on the channel, where any waiting call may receive. A call gets the
reply to its own message as long as no other call waits when a reply is sent.

The callback runs on one goroutine, and is cut where other goroutines can intervene.
-/

namespace Gocom

open Runs

/-- A call: its message lies in the Publish channel, then it waits until it returns. -/
inductive CallPhase where
  | idle
  | published
  | waiting
  | returned (resp : MQConsumerMessage)
  | timedOut
  deriving DecidableEq

/-- The callback: it has found the message `m` waiting for the delivery, sends the response,
and then forgets the identifier. -/
inductive CallbackPhase where
  | idle
  | found (d : Delivery) (m : ℕ)
  | sending (resp : MQConsumerMessage) (m : ℕ) (correlationID : String)
  | sent (correlationID : String)

/-- Calls are numbered, and call `i` publishes message `i`. -/
structure RpcQueries where
  rpcResponseChannel : ℕ := 0
  exchangeName : String := ""
  messages : ℕ → MQPublishMessage
  rpc : RpcInstance
  publishes : List ℕ := []
  phase : ℕ → CallPhase := fun _ => .idle
  callback : CallbackPhase := .idle

namespace RpcQueries

def setPhase (s : RpcQueries) (i : ℕ) (p : CallPhase) : RpcQueries :=
  { s with phase := fun k => if k = i then p else s.phase k }

def setMessage (s : RpcQueries) (i : ℕ) (pm : MQPublishMessage) : RpcQueries :=
  { s with messages := fun k => if k = i then pm else s.messages k }

inductive Event where
  /-- A call publishes its message. -/
  | query (i : ℕ)
  /-- The call reaches its select. -/
  | await (i : ℕ)
  /-- The loop takes a message and makes it answerable. -/
  | register (i : ℕ) (uuid : String)
  /-- A reply arrives at the callback. -/
  | deliver (d : Delivery)
  /-- The callback decides whether the message still wants the reply. -/
  | respond
  /-- The waiting call `i` receives what the callback sends. -/
  | handOver (i : ℕ)
  /-- The callback forgets the identifier. -/
  | finish
  /-- The timer of a waiting call fires. -/
  | timeout (i : ℕ)

def deliver (s : RpcQueries) (d : Delivery) : RpcQueries :=
  match s.rpc.rpcCallbacks d.correlationId with
  | none => s
  | some m => { s with callback := .found d m }

def respond (s : RpcQueries) (d : Delivery) (m : ℕ) : RpcQueries :=
  if (s.messages m).callbackEnabled then
    let resp := { generateMQResponseMessage d s.exchangeName with
      queue := s.rpc.queueName, replyTo := (s.messages m).replyTo }
    { s with callback := .sending resp m d.correlationId }
  else { s with callback := .sent d.correlationId }

def step (s : RpcQueries) : Event → Option RpcQueries
  | .query i =>
    if s.phase i = .idle then
      some ({ s with publishes := s.publishes ++ [i] }.setMessage i
        { s.messages i with response := some s.rpcResponseChannel } |>.setPhase i .published)
    else none
  | .await i => if s.phase i = .published then some (s.setPhase i .waiting) else none
  | .register i uuid =>
    if i ∈ s.publishes ∧ uuid ≠ "" then
      let (rpc, messages) := s.rpc.ensureRPCMessage s.messages uuid i
      some { s with publishes := s.publishes.erase i, rpc, messages }
    else none
  | .deliver d =>
    match s.callback with
    | .idle => some (s.deliver d)
    | _ => none
  | .respond =>
    match s.callback with
    | .found d m => some (s.respond d m)
    | _ => none
  | .handOver i =>
    match s.callback with
    | .sending resp m correlationID =>
      if s.phase i = .waiting ∧ (s.messages i).response = (s.messages m).response then
        some ({ s with callback := .sent correlationID }.setPhase i (.returned resp))
      else none
    | _ => none
  | .finish =>
    match s.callback with
    | .sent correlationID =>
      some { s with
        callback := .idle
        rpc := { s.rpc with rpcCallbacks := s.rpc.rpcCallbacks.delete correlationID } }
    | _ => none
  | .timeout i =>
    if s.phase i = .waiting then
      some (s.setMessage i (s.messages i).onClosed |>.setPhase i .timedOut)
    else none

/-- No call has been made yet. -/
def start (messages : ℕ → MQPublishMessage) (queueName exchangeName : String)
    (rpcResponseChannel : ℕ) : RpcQueries :=
  { rpcResponseChannel, exchangeName, messages, rpc := ⟨queueName, .empty⟩ }

/-! ## The identifiers of messages and replies -/

/-- Every call that has returned a response returned the one to its own message. -/
def Correlated (s : RpcQueries) : Prop :=
  ∀ i resp, s.phase i = .returned resp → resp.correlationID = (s.messages i).correlationID

/-- The callback only handles replies for the message whose identifier they carry. -/
def CallbackMatches (s : RpcQueries) : Prop :=
  match s.callback with
  | .found d m => (s.messages m).correlationID = d.correlationId ∧ "" ≠ d.correlationId
  | .sending resp m _ => (s.messages m).correlationID = resp.correlationID ∧ "" ≠ resp.correlationID
  | _ => True

/-- Identifiers that something depends on are set, and so do not change any more. -/
structure Consistent (s : RpcQueries) : Prop where
  registered : ∀ id m, s.rpc.rpcCallbacks id = some m → (s.messages m).correlationID = id ∧ "" ≠ id
  callback : s.CallbackMatches
  returned : ∀ i resp, s.phase i = .returned resp →
    resp.correlationID = (s.messages i).correlationID ∧ "" ≠ resp.correlationID

theorem Consistent.correlated {s : RpcQueries} (h : Consistent s) : s.Correlated :=
  fun i resp hi => (h.returned i resp hi).1

theorem consistent_start (messages : ℕ → MQPublishMessage) (queueName exchangeName : String)
    (rpcResponseChannel : ℕ) : Consistent (start messages queueName exchangeName rpcResponseChannel) :=
  ⟨fun _ _ h => (nomatch h), trivial, fun _ _ h => (nomatch h)⟩

/-- The messages after a step keep every identifier that was set. -/
def KeepsIds (s : RpcQueries) (messages : ℕ → MQPublishMessage) : Prop :=
  ∀ m id, (s.messages m).correlationID = id → "" ≠ id → (messages m).correlationID = id

theorem CallbackMatches.keep {s : RpcQueries} (h : CallbackMatches s)
    {messages : ℕ → MQPublishMessage} (hk : s.KeepsIds messages) :
    CallbackMatches { s with messages } := by
  cases hcb : s.callback with
  | idle => simp only [CallbackMatches]
  | found d m =>
    simp only [CallbackMatches, hcb] at h ⊢
    exact ⟨hk m _ h.1 h.2, h.2⟩
  | sending resp m correlationID =>
    simp only [CallbackMatches, hcb] at h ⊢
    exact ⟨hk m _ h.1 h.2, h.2⟩
  | sent correlationID => simp only [CallbackMatches]

theorem Consistent.keep {s : RpcQueries} (h : Consistent s) {messages : ℕ → MQPublishMessage}
    (hk : s.KeepsIds messages) : Consistent { s with messages } := by
  refine ⟨fun id m hm => ?_, h.callback.keep hk, fun i resp hi => ?_⟩
  · obtain ⟨hid, hne⟩ := h.registered id m hm
    exact ⟨hk m id hid hne, hne⟩
  · obtain ⟨hid, hne⟩ := h.returned i resp hi
    exact ⟨(hk i _ hid.symm hne).symm, hne⟩

theorem setMessage_keepsIds (s : RpcQueries) {i : ℕ} {pm : MQPublishMessage}
    (hid : pm.correlationID = (s.messages i).correlationID) :
    s.KeepsIds (s.setMessage i pm).messages := by
  intro m id hm _
  by_cases hmi : m = i
  · subst hmi
    have hset : (s.setMessage m pm).messages m = pm := if_pos rfl
    rw [hset, hid, hm]
  · have hset : (s.setMessage i pm).messages m = s.messages m := if_neg hmi
    rw [hset, hm]

theorem ensureRPCMessage_keepsIds (s : RpcQueries) (uuid : String) (i : ℕ) :
    s.KeepsIds (s.rpc.ensureRPCMessage s.messages uuid i).2 := by
  intro m id hm hne
  by_cases hmi : m = i
  · subst hmi
    rw [RabbitMQ.ensureRPCMessage_message, if_neg (fun h => hne (h.trans hm)), hm]
  · have hother : (s.rpc.ensureRPCMessage s.messages uuid i).2 m = s.messages m := if_neg hmi
    rw [hother, hm]

/-- A call may move to a phase in which it has returned the reply to its own message. -/
theorem Consistent.setPhase {s : RpcQueries} (h : Consistent s) {i : ℕ} {p : CallPhase}
    (hp : ∀ resp, p = .returned resp →
      resp.correlationID = (s.messages i).correlationID ∧ "" ≠ resp.correlationID) :
    Consistent (s.setPhase i p) := by
  refine ⟨h.registered, h.callback, fun k resp hk => ?_⟩
  by_cases hki : k = i
  · subst hki
    exact hp resp ((if_pos rfl).symm.trans hk)
  · exact h.returned k resp ((if_neg hki).symm.trans hk)

theorem Consistent.withCallback {s : RpcQueries} (h : Consistent s) {callback : CallbackPhase}
    (hc : CallbackMatches { s with callback }) : Consistent { s with callback } :=
  ⟨h.registered, hc, h.returned⟩

/-- A call waits for the identifier its message has once it is answerable. -/
theorem ensureRPCMessage_registered {rpc : RpcInstance} {messages : ℕ → MQPublishMessage}
    {uuid : String} (hu : uuid ≠ "") {i : ℕ} {id : String} {m : ℕ}
    (hm : (rpc.ensureRPCMessage messages uuid i).1.rpcCallbacks id = some m) :
    rpc.rpcCallbacks id = some m ∨
      (m = i ∧ ((rpc.ensureRPCMessage messages uuid i).2 i).correlationID = id ∧ "" ≠ id) := by
  rw [RabbitMQ.ensureRPCMessage_message]
  dsimp only
  generalize hid : (if "" = (messages i).correlationID then uuid
    else (messages i).correlationID) = correlationID
  have hcases : (rpc.ensureRPCMessage messages uuid i).1 = rpc ∨
      (rpc.ensureRPCMessage messages uuid i).1 =
        { rpc with rpcCallbacks := rpc.rpcCallbacks.store correlationID i } := by
    rw [← hid]
    exact ite_eq_or_eq _ _ _
  rcases hcases with hsame | hstored
  · exact .inl (hsame ▸ hm)
  · simp only [hstored, GoMap.store_apply] at hm
    split_ifs at hm with hkey
    · refine .inr ⟨(Option.some.inj hm).symm, hkey.symm, ?_⟩
      rw [hkey, ← hid]
      split_ifs with hempty
      · exact hu.symm
      · exact hempty
    · exact .inl hm

theorem Consistent.register {s : RpcQueries} (h : Consistent s) {uuid : String} (hu : uuid ≠ "")
    (i : ℕ) : Consistent { s with
      publishes := s.publishes.erase i
      rpc := (s.rpc.ensureRPCMessage s.messages uuid i).1
      messages := (s.rpc.ensureRPCMessage s.messages uuid i).2 } := by
  have hkept := h.keep (ensureRPCMessage_keepsIds s uuid i)
  refine ⟨fun id m hm => ?_, hkept.callback, hkept.returned⟩
  rcases ensureRPCMessage_registered hu hm with hold | ⟨rfl, hid⟩
  · exact hkept.registered id m hold
  · exact hid

theorem deliver_consistent {s : RpcQueries} (h : Consistent s) (d : Delivery) :
    Consistent (s.deliver d) := by
  rw [deliver]
  cases hm : s.rpc.rpcCallbacks d.correlationId with
  | none => exact h
  | some m => exact h.withCallback (h.registered _ m hm)

theorem respond_consistent {s : RpcQueries} (h : Consistent s) {d : Delivery} {m : ℕ}
    (hcb : s.callback = .found d m) : Consistent (s.respond d m) := by
  have hmatch := h.callback
  simp only [CallbackMatches, hcb] at hmatch
  rw [respond]
  split_ifs
  · exact h.withCallback hmatch
  · exact h.withCallback trivial

/-! ## Runs -/

/-- When the callback hands a reply over, no call other than the one it is meant for waits. -/
def AloneWaiting (s : RpcQueries) : Event → Prop
  | .handOver _ =>
    match s.callback with
    | .sending _ m _ => ∀ j, s.phase j = .waiting → j = m
    | _ => True
  | _ => True

theorem handOver_eq_some {s t : RpcQueries} {i : ℕ} (ht : step s (.handOver i) = some t) :
    ∃ resp m correlationID, s.callback = .sending resp m correlationID ∧ s.phase i = .waiting ∧
      t = { s with callback := .sent correlationID }.setPhase i (.returned resp) := by
  rw [step] at ht
  cases hcb : s.callback with
  | sending resp m correlationID =>
    simp only [hcb] at ht
    split_ifs at ht with hw
    exact ⟨resp, m, correlationID, rfl, hw.1, (Option.some.inj ht).symm⟩
  | idle => simp [hcb] at ht
  | found d m => simp [hcb] at ht
  | sent correlationID => simp [hcb] at ht

theorem step_consistent {s t : RpcQueries} {e : Event} (h : Consistent s)
    (halone : s.AloneWaiting e) (ht : step s e = some t) : Consistent t := by
  cases e with
  | query i =>
    simp only [step] at ht
    split_ifs at ht
    obtain rfl := Option.some.inj ht
    refine Consistent.setPhase ?_ (by simp)
    exact Consistent.keep (s := { s with publishes := s.publishes ++ [i] })
      ⟨h.registered, h.callback, h.returned⟩ (setMessage_keepsIds _ rfl)
  | await i =>
    simp only [step] at ht
    split_ifs at ht
    obtain rfl := Option.some.inj ht
    exact h.setPhase (by simp)
  | register i uuid =>
    simp only [step] at ht
    split_ifs at ht with hreg
    obtain rfl := Option.some.inj ht
    exact h.register hreg.2 i
  | deliver d =>
    cases hcb : s.callback <;> simp only [step, hcb, reduceCtorEq] at ht
    exact Option.some.inj ht ▸ deliver_consistent h d
  | respond =>
    cases hcb : s.callback <;> simp only [step, hcb, reduceCtorEq] at ht
    exact Option.some.inj ht ▸ respond_consistent h hcb
  | handOver i =>
    obtain ⟨resp, m, correlationID, hcb, hw, rfl⟩ := handOver_eq_some ht
    -- the receiver is the call whose message the reply was found for
    simp only [AloneWaiting, hcb] at halone
    obtain rfl := halone i hw
    have hmatch := h.callback
    simp only [CallbackMatches, hcb] at hmatch
    refine Consistent.setPhase (s := { s with callback := .sent correlationID })
      (h.withCallback trivial) fun resp' hp => ?_
    cases hp
    exact ⟨hmatch.1.symm, hmatch.2⟩
  | finish =>
    cases hcb : s.callback <;> simp only [step, hcb, reduceCtorEq] at ht
    obtain rfl := Option.some.inj ht
    exact ⟨fun id m hm => h.registered id m (GoMap.of_delete_eq_some hm).2, trivial, h.returned⟩
  | timeout i =>
    simp only [step] at ht
    split_ifs at ht
    obtain rfl := Option.some.inj ht
    refine Consistent.setPhase ?_ (by simp)
    exact h.keep (setMessage_keepsIds s rfl)

/-- With the messages of any two waiting calls distinguishable, every call that could receive
what the callback sends gets the reply to its own message exactly when nobody else waits. -/
theorem handOver_correlated_iff {s : RpcQueries} (h : Consistent s) {resp : MQConsumerMessage}
    {m : ℕ} {correlationID : String} (hcb : s.callback = .sending resp m correlationID)
    (hdistinct : ∀ i, s.phase i = .waiting → i ≠ m →
      (s.messages i).correlationID ≠ (s.messages m).correlationID)
    (hshared : ∀ i, s.phase i = .waiting → (s.messages i).response = (s.messages m).response) :
    (∀ i t, step s (.handOver i) = some t → Correlated t) ↔
      ∀ i, s.phase i = .waiting → i = m := by
  constructor
  · intro hall i hw
    by_contra hne
    have hstep : step s (.handOver i) =
        some ({ s with callback := .sent correlationID }.setPhase i (.returned resp)) := by
      simp only [step, hcb]
      exact if_pos ⟨hw, hshared i hw⟩
    have hmatch := h.callback
    simp only [CallbackMatches, hcb] at hmatch
    exact hdistinct i hw hne ((hall i _ hstep i resp (if_pos rfl)).symm.trans hmatch.1.symm)
  · intro halone i t ht
    refine (step_consistent (e := .handOver i) h ?_ ht).correlated
    simpa only [AloneWaiting, hcb] using halone

/-- In every state of a run whose replies are always handed over to lone calls, the calls that
returned a response returned the one to their own message. -/
theorem run_correlated (messages : ℕ → MQPublishMessage) (queueName exchangeName : String)
    (rpcResponseChannel : ℕ) {es : List Event} {s : RpcQueries}
    (halone : Throughout step AloneWaiting
      (start messages queueName exchangeName rpcResponseChannel) es)
    (hrun : run step (start messages queueName exchangeName rpcResponseChannel) es = some s) :
    s.Correlated :=
  (halone.invariant (fun _ _ _ h hg ht => step_consistent h hg ht)
    (consistent_start messages queueName exchangeName rpcResponseChannel) hrun).correlated

/-- Messages with distinct identifiers. -/
def numbered (m : ℕ) : MQPublishMessage :=
  { routingKey := "demo.echo", correlationID := String.ofList (List.replicate (m + 1) 'a') }

theorem numbered_injective {i j : ℕ} (h : (numbered i).correlationID = (numbered j).correlationID) :
    i = j := by
  have hlist := congrArg List.length (String.ofList_injective h)
  simpa using hlist

/-- One call and its answer, in turn. -/
def oneCall (i : ℕ) (queue correlationID : String) : List Event :=
  [.query i, .await i, .register i queue, .deliver { correlationId := correlationID }, .respond, .handOver i,
    .finish]

/-- Two calls are answered one after the other. -/
theorem run_correlated_inTurn :
    ∃ s, run step (start numbered "rpc-client" "" 0) (oneCall 0 "u" "a" ++ oneCall 1 "v" "aa") = some s ∧
      s.Correlated ∧ (∃ resp, s.phase 0 = .returned resp ∧ resp.correlationID = "a") ∧
      ∃ resp, s.phase 1 = .returned resp ∧ resp.correlationID = "aa" := by
  have halone : Throughout step AloneWaiting (start numbered "rpc-client" "" 0)
      (oneCall 0 "u" "a" ++ oneCall 1 "v" "aa") := by
    refine .cons trivial rfl (.cons trivial rfl (.cons trivial rfl (.cons trivial rfl
      (.cons trivial rfl (.cons ?_ rfl (.cons trivial rfl (.cons trivial rfl (.cons trivial rfl
      (.cons trivial rfl (.cons trivial rfl (.cons trivial rfl (.cons ?_ rfl
      (.cons trivial rfl trivial)))))))))))))
    · intro j hj
      cases j with
      | zero => rfl
      | succ j =>
        have hidle : CallPhase.idle = .waiting := hj
        cases hidle
    · intro j hj
      rcases j with _ | _ | j
      · have hreturned : ∃ resp, CallPhase.returned resp = .waiting := ⟨_, hj⟩
        obtain ⟨resp, hresp⟩ := hreturned
        cases hresp
      · rfl
      · have hidle : CallPhase.idle = .waiting := hj
        cases hidle
  exact ⟨_, rfl, run_correlated numbered "rpc-client" "" 0 halone rfl, ⟨_, rfl, rfl⟩, _, rfl, rfl⟩

/-- Two calls wait, and the first receives the reply to the second. -/
theorem run_crossed :
    (∀ i j, (numbered i).correlationID = (numbered j).correlationID → i = j) ∧
    ∃ s, run step (start numbered "rpc-client" "" 0) [.query 0, .query 1, .await 0, .await 1,
        .register 0 "u", .register 1 "v", .deliver { correlationId := "aa" }, .respond,
        .handOver 0] = some s ∧ ¬ s.Correlated := by
  refine ⟨fun _ _ => numbered_injective, _, rfl, fun h => ?_⟩
  have hcrossed : "aa" = "a" := h 0 _ rfl
  exact absurd hcrossed (by decide)

end RpcQueries
end Gocom
