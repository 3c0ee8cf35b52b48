import Gocom.GuardedRuns
import Gocom.JobPools
import Gocom.RabbitReplies
import Mathlib.Data.List.Flatten
import Mathlib.Data.List.Perm.Subperm

/-!
# RPC instances

The messages of all RPC instances wait for their replies in one table. Each consuming instance has a
goroutine for every time its queue was declared, which handles the deliveries of the queue one after
the other; the goroutines are cut where others can intervene. Sending on a channel waits for a
receiver, and sending on no channel waits forever.
-/

namespace Gocom

open Runs

/-- A goroutine has found the message `m` waiting for a delivery, sends the response on the channel of
the message, and then forgets the identifier. -/
inductive RpcPhase where
  | idle
  | found (d : Delivery) (m : ℕ)
  | sending (d : Delivery) (m : ℕ) (response : Option ℕ)
  | sent (d : Delivery)
  | ended

/-- A goroutine that handles deliveries. -/
structure RpcConsumer where
  deliveries : List Delivery := []
  closed : Bool := false
  phase : RpcPhase := .idle

/-- What was received for a message. -/
structure ReceivedResponse where
  message : ℕ
  channel : ℕ
  resp : MQConsumerMessage

/-- What the goroutines share, and what the broker and the callers have got from them. -/
structure RpcTable where
  cbs : GoMap String ℕ := .empty
  messages : ℕ → MQPublishMessage
  received : List ReceivedResponse := []
  acked : List Delivery := []
  nacked : List Delivery := []

structure RabbitRpcs where
  table : RpcTable
  consumers : List RpcConsumer := []

namespace RabbitRpcs

/-- Give a message an identifier, and let it wait unless a message with a response channel waits under
the identifier. -/
def ensureRPCCorrelationID (t : RpcTable) (uuid : String) (m : ℕ) : RpcTable :=
  let pm := t.messages m
  let correlationID := if "" = pm.correlationID then uuid else pm.correlationID
  let messages := fun k => if k = m then { pm with correlationID } else t.messages k
  let waits := (t.cbs correlationID).any fun originPm => (messages originPm).response.isSome
  { t with messages, cbs := if waits then t.cbs else t.cbs.store correlationID m }

/-- A step of a goroutine, or of the broker for it. -/
inductive ConsumerEvent where
  | deliver (d : Delivery)
  | close
  | take
  | respond
  | receive
  | forget
  | finish

def take (t : RpcTable) (c : RpcConsumer) (d : Delivery) : RpcTable × RpcConsumer :=
  match t.cbs d.correlationId with
  | none => ({ t with nacked := t.nacked ++ [d] }, c)
  | some m => (t, { c with phase := .found d m })

def handleRPCConsume (t : RpcTable) (c : RpcConsumer) : ConsumerEvent → Option (RpcTable × RpcConsumer)
  | .deliver d => if c.closed then none else some (t, { c with deliveries := c.deliveries ++ [d] })
  | .close => some (t, { c with closed := true })
  | .take =>
    match c.phase, c.deliveries with
    | .idle, d :: deliveries => some (take t { c with deliveries } d)
    | _, _ => none
  | .respond =>
    match c.phase with
    | .found d m =>
      some (t, { c with
        phase := if (t.messages m).callbackEnabled then .sending d m (t.messages m).response else .sent d })
    | _ => none
  | .receive =>
    match c.phase with
    | .sending d message (some channel) =>
      let resp := generateMQResponseMessage d d.exchange
      some ({ t with received := t.received ++ [⟨message, channel, resp⟩] }, { c with phase := .sent d })
    | _ => none
  | .forget =>
    match c.phase with
    | .sent d =>
      some ({ t with cbs := t.cbs.delete d.correlationId, acked := t.acked ++ [d] }, { c with phase := .idle })
    | _ => none
  | .finish =>
    match c.phase, c.deliveries with
    | .idle, [] => if c.closed then some (t, { c with phase := .ended }) else none
    | _, _ => none

inductive Event where
  /-- An instance publishes a message. -/
  | publish (m : ℕ) (uuid : String)
  /-- The queue of a consuming instance has been declared. -/
  | consume
  | consumer (k : ℕ) (e : ConsumerEvent)
  /-- The caller gives up. -/
  | onClosed (m : ℕ)

def step (s : RabbitRpcs) : Event → Option RabbitRpcs
  | .publish m uuid =>
    if uuid = "" then none else some { s with table := ensureRPCCorrelationID s.table uuid m }
  | .consume => some { s with consumers := s.consumers ++ [{}] }
  | .consumer k e =>
    match s.consumers[k]? with
    | none => none
    | some c =>
      match handleRPCConsume s.table c e with
      | none => none
      | some (table, c) => some { table, consumers := s.consumers.set k c }
  | .onClosed m =>
    some { s with table := { s.table with
      messages := fun k => if k = m then (s.table.messages m).onClosed else s.table.messages k } }

def start (messages : ℕ → MQPublishMessage) : RabbitRpcs := { table := { messages } }

/-! ## Identifiers and response channels -/

/-- What a step may do to a message: give it an identifier, or disable its callback. -/
def Evolves (pm pm' : MQPublishMessage) : Prop :=
  pm'.response = pm.response ∧ ("" ≠ pm.correlationID → pm'.correlationID = pm.correlationID) ∧
    (pm'.callbackEnabled → pm.callbackEnabled)

theorem Evolves.refl (pm : MQPublishMessage) : Evolves pm pm := ⟨rfl, fun _ => rfl, id⟩

theorem Evolves.trans {pm pm' pm'' : MQPublishMessage} (h : Evolves pm pm') (h' : Evolves pm' pm'') :
    Evolves pm pm'' := by
  refine ⟨h'.1.trans h.1, fun hid => ?_, fun he => h.2.2 (h'.2.2 he)⟩
  have hkept := h.2.1 hid
  exact (h'.2.1 (by rwa [hkept])).trans hkept

theorem ensureRPCCorrelationID_evolves (t : RpcTable) (uuid : String) (m k : ℕ) :
    Evolves (t.messages k) ((ensureRPCCorrelationID t uuid m).messages k) := by
  by_cases hk : k = m
  · subst hk
    have hmessage : (ensureRPCCorrelationID t uuid k).messages k = { t.messages k with
        correlationID := if "" = (t.messages k).correlationID then uuid else (t.messages k).correlationID } :=
      if_pos rfl
    rw [hmessage]
    exact ⟨rfl, fun hid => if_neg hid, id⟩
  · have hmessage : (ensureRPCCorrelationID t uuid m).messages k = t.messages k := if_neg hk
    rw [hmessage]
    exact .refl _

/-- What a goroutine can do. -/
inductive Handles (t : RpcTable) : RpcConsumer → ConsumerEvent → RpcTable → RpcConsumer → Prop where
  | deliver (c : RpcConsumer) (d : Delivery) :
      Handles t c (.deliver d) t { c with deliveries := c.deliveries ++ [d] }
  | close (c : RpcConsumer) : Handles t c .close t { c with closed := true }
  | refuse {ds : List Delivery} {closed : Bool} {d : Delivery} (hd : t.cbs d.correlationId = none) :
      Handles t ⟨d :: ds, closed, .idle⟩ .take { t with nacked := t.nacked ++ [d] } ⟨ds, closed, .idle⟩
  | find {ds : List Delivery} {closed : Bool} {d : Delivery} {m : ℕ} (hm : t.cbs d.correlationId = some m) :
      Handles t ⟨d :: ds, closed, .idle⟩ .take t ⟨ds, closed, .found d m⟩
  | send {ds : List Delivery} {closed : Bool} {d : Delivery} {m : ℕ} (he : (t.messages m).callbackEnabled) :
      Handles t ⟨ds, closed, .found d m⟩ .respond t ⟨ds, closed, .sending d m (t.messages m).response⟩
  | skip {ds : List Delivery} {closed : Bool} {d : Delivery} {m : ℕ} :
      Handles t ⟨ds, closed, .found d m⟩ .respond t ⟨ds, closed, .sent d⟩
  | receive {ds : List Delivery} {closed : Bool} {d : Delivery} {m channel : ℕ} :
      Handles t ⟨ds, closed, .sending d m (some channel)⟩ .receive
        { t with received := t.received ++ [⟨m, channel, generateMQResponseMessage d d.exchange⟩] }
        ⟨ds, closed, .sent d⟩
  | forget {ds : List Delivery} {closed : Bool} {d : Delivery} :
      Handles t ⟨ds, closed, .sent d⟩ .forget
        { t with cbs := t.cbs.delete d.correlationId, acked := t.acked ++ [d] } ⟨ds, closed, .idle⟩
  | finish : Handles t ⟨[], true, .idle⟩ .finish t ⟨[], true, .ended⟩

theorem handles_of_eq_some {t t' : RpcTable} {c c' : RpcConsumer} {e : ConsumerEvent}
    (h : handleRPCConsume t c e = some (t', c')) : Handles t c e t' c' := by
  obtain ⟨ds, closed, phase⟩ := c
  cases e with
  | deliver d =>
    rw [handleRPCConsume] at h
    split_ifs at h
    cases h
    exact .deliver _ d
  | close =>
    cases h
    exact .close _
  | take =>
    cases phase <;> cases ds <;> simp only [handleRPCConsume, reduceCtorEq] at h
    rename_i d ds
    rw [take] at h
    split at h <;> cases h
    · next hd => exact .refuse hd
    · next m hm => exact .find hm
  | respond =>
    cases phase <;> simp only [handleRPCConsume, reduceCtorEq] at h
    split_ifs at h with he <;> cases h
    · exact .send he
    · exact .skip
  | receive =>
    cases phase <;> simp only [handleRPCConsume, reduceCtorEq] at h
    rename_i d m response
    cases response <;> cases h
    exact .receive
  | forget =>
    cases phase <;> cases h
    exact .forget
  | finish =>
    cases phase <;> cases ds <;> simp only [handleRPCConsume, reduceCtorEq] at h
    split_ifs at h with hclosed
    cases h
    subst hclosed
    exact .finish

theorem Handles.messages {t t' : RpcTable} {c c' : RpcConsumer} {e : ConsumerEvent} (h : Handles t c e t' c') :
    t'.messages = t.messages := by
  cases h <;> rfl

/-- A step of a goroutine changes that goroutine and the table. -/
theorem step_consumer {s s' : RabbitRpcs} {k : ℕ} {e : ConsumerEvent} (h : step s (.consumer k e) = some s') :
    ∃ c t c', s.consumers[k]? = some c ∧ Handles s.table c e t c' ∧
      s' = { table := t, consumers := s.consumers.set k c' } := by
  rw [step] at h
  split at h
  · cases h
  · next c hc =>
    split at h
    · cases h
    · next t c' hconsume => exact ⟨c, t, c', hc, handles_of_eq_some hconsume, (Option.some.inj h).symm⟩

theorem step_evolves {s s' : RabbitRpcs} {e : Event} (h : step s e = some s') (k : ℕ) :
    Evolves (s.table.messages k) (s'.table.messages k) := by
  cases e with
  | publish m uuid =>
    rw [step] at h
    split_ifs at h
    obtain rfl := Option.some.inj h
    exact ensureRPCCorrelationID_evolves s.table uuid m k
  | consume =>
    obtain rfl := Option.some.inj h
    exact .refl _
  | consumer k e =>
    obtain ⟨c, t, c', -, hhandles, rfl⟩ := step_consumer h
    rw [hhandles.messages]
    exact .refl _
  | onClosed m =>
    obtain rfl := Option.some.inj h
    dsimp only
    split_ifs with hk
    · subst hk
      exact ⟨rfl, fun _ => rfl, fun he => nomatch he⟩
    · exact .refl _

/-! ## Deliveries -/

/-- The delivery a goroutine is busy with. -/
def busyWith : RpcPhase → List Delivery
  | .found d _ => [d]
  | .sending d _ _ => [d]
  | .sent d => [d]
  | _ => []

def held (c : RpcConsumer) : List Delivery := busyWith c.phase ++ c.deliveries

/-- The delivery a goroutine is done with, but for the acknowledgement. -/
def answered (c : RpcConsumer) : List Delivery :=
  match c.phase with
  | .sent d => [d]
  | _ => []

theorem answered_sublist_held (c : RpcConsumer) : (answered c).Sublist (held c) := by
  obtain ⟨ds, closed, phase⟩ := c
  cases phase
  case sent d => exact List.sublist_append_left [d] ds
  all_goals exact List.nil_sublist _

def ConsumerEvent.delivery? : ConsumerEvent → Option Delivery
  | .deliver d => some d
  | _ => none

def Event.delivery? : Event → Option Delivery
  | .consumer _ e => e.delivery?
  | _ => none

theorem Handles.held_perm {t t' : RpcTable} {c c' : RpcConsumer} {e : ConsumerEvent} (h : Handles t c e t' c') :
    (held c' ++ (t'.acked ++ t'.nacked)).Perm
      (e.delivery?.toList ++ (held c ++ (t.acked ++ t.nacked))) := by
  refine List.perm_iff_count.mpr fun a => ?_
  cases h <;> simp only [held, busyWith, ConsumerEvent.delivery?, Option.toList, List.count_append,
    List.count_cons, List.count_nil] <;> omega

/-- What a goroutine tells whoever waits for a delivery. -/
def responseTo (d : Delivery) : MQConsumerMessage := generateMQResponseMessage d d.exchange

/-- With each response that is received a delivery is done with. -/
theorem Handles.received_subperm {t t' : RpcTable} {c c' : RpcConsumer} {e : ConsumerEvent}
    (h : Handles t c e t' c') :
    (t'.received.map ReceivedResponse.resp ++ (answered c ++ t.acked).map responseTo).Subperm
      (t.received.map ReceivedResponse.resp ++ (answered c' ++ t'.acked).map responseTo) := by
  refine List.subperm_iff_count.mpr fun a => ?_
  cases h <;> simp only [answered, responseTo, List.map_append, List.map_cons, List.map_nil, List.count_append,
    List.count_cons, List.count_nil] <;> omega

/-- The deliveries that have not been settled. -/
def pending (s : RabbitRpcs) : List Delivery := s.consumers.flatMap held

theorem step_settles {s s' : RabbitRpcs} {e : Event} (h : step s e = some s') :
    (s'.pending ++ (s'.table.acked ++ s'.table.nacked)).Perm
      (e.delivery?.toList ++ (s.pending ++ (s.table.acked ++ s.table.nacked))) := by
  cases e with
  | publish m uuid =>
    rw [step] at h
    split_ifs at h
    obtain rfl := Option.some.inj h
    exact List.Perm.refl _
  | consume =>
    obtain rfl := Option.some.inj h
    have hnew : pending { s with consumers := s.consumers ++ [{}] } = s.pending := by
      rw [pending, List.flatMap_append]
      exact List.append_nil _
    rw [hnew]
    exact List.Perm.refl _
  | consumer k e =>
    obtain ⟨c, t, c', hc, hhandles, rfl⟩ := step_consumer h
    have hpool := JobPools.flatMap_set_perm held hc c'
    have hheld := hhandles.held_perm
    refine List.perm_iff_count.mpr fun a => ?_
    have hp := List.perm_iff_count.mp hpool a
    have hh := List.perm_iff_count.mp hheld a
    simp only [pending, Event.delivery?, List.count_append] at hp hh ⊢
    omega
  | onClosed m =>
    obtain rfl := Option.some.inj h
    exact List.Perm.refl _

theorem run_settles {s u : RabbitRpcs} {es : List Event} (hrun : run step s es = some u) :
    (u.pending ++ (u.table.acked ++ u.table.nacked)).Perm
      (es.filterMap Event.delivery? ++ (s.pending ++ (s.table.acked ++ s.table.nacked))) := by
  induction es generalizing s with
  | nil =>
    obtain rfl := Option.some.inj hrun
    exact List.Perm.refl _
  | cons e es ih =>
    obtain ⟨t, ht, hrun⟩ := run_cons_eq_some.mp hrun
    refine (ih hrun).trans (((step_settles ht).append_left _).trans ?_)
    rw [List.filterMap_cons]
    cases e.delivery? with
    | none => exact List.Perm.refl _
    | some d => exact List.perm_append_comm_assoc _ [d] _

/-- Each response that was received was made from a delivery of its own. -/
def Answered (s : RabbitRpcs) : Prop :=
  (s.table.received.map ReceivedResponse.resp).Subperm
    ((s.consumers.flatMap answered ++ s.table.acked).map responseTo)

theorem step_answered {s s' : RabbitRpcs} {e : Event} (hs : Answered s) (h : step s e = some s') :
    Answered s' := by
  cases e with
  | publish m uuid =>
    rw [step] at h
    split_ifs at h
    obtain rfl := Option.some.inj h
    exact hs
  | consume =>
    obtain rfl := Option.some.inj h
    rw [Answered, List.flatMap_append]
    exact (List.append_nil (s.consumers.flatMap answered)).symm ▸ hs
  | consumer k e =>
    obtain ⟨c, t, c', hc, hhandles, rfl⟩ := step_consumer h
    have hpool := (JobPools.flatMap_set_perm answered hc c').map responseTo
    have hreceived := hhandles.received_subperm
    refine List.subperm_iff_count.mpr fun a => ?_
    have ha := List.subperm_iff_count.mp hs a
    have hp := List.perm_iff_count.mp hpool a
    have hr := List.subperm_iff_count.mp hreceived a
    simp only [List.map_append, List.count_append] at ha hp hr ⊢
    omega
  | onClosed m =>
    obtain rfl := Option.some.inj h
    exact hs

theorem Answered.subperm {s : RabbitRpcs} (h : Answered s) : (s.table.received.map ReceivedResponse.resp).Subperm
    ((s.pending ++ (s.table.acked ++ s.table.nacked)).map responseTo) := by
  have hsub : (s.consumers.flatMap answered).Sublist s.pending :=
    List.Sublist.flatMap_right s.consumers fun c _ => answered_sublist_held c
  have happ := hsub.append (List.sublist_append_left s.table.acked s.table.nacked)
  exact h.trans (happ.map responseTo).subperm

/-! ## Messages and their responses -/

/-- The goroutine is busy with a delivery for the message whose identifier it carries, and sends on the
channel of the message. -/
def Matches (messages : ℕ → MQPublishMessage) : RpcPhase → Prop
  | .found d m => (messages m).correlationID = d.correlationId ∧ "" ≠ d.correlationId
  | .sending d m response =>
    ((messages m).correlationID = d.correlationId ∧ "" ≠ d.correlationId) ∧ (messages m).response = response
  | _ => True

/-- Messages wait and are answered under their own identifier. -/
structure Consistent (s : RabbitRpcs) : Prop where
  registered : ∀ id m, s.table.cbs id = some m → (s.table.messages m).correlationID = id ∧ "" ≠ id
  phases : ∀ c ∈ s.consumers, Matches s.table.messages c.phase
  received : ∀ r ∈ s.table.received, ((s.table.messages r.message).correlationID = r.resp.correlationID ∧
    "" ≠ r.resp.correlationID) ∧ (s.table.messages r.message).response = some r.channel

theorem Evolves.id {pm pm' : MQPublishMessage} (h : Evolves pm pm') {id : String}
    (hid : pm.correlationID = id ∧ "" ≠ id) : pm'.correlationID = id ∧ "" ≠ id := by
  obtain ⟨rfl, hne⟩ := hid
  exact ⟨h.2.1 hne, hne⟩

theorem Matches.evolve {messages messages' : ℕ → MQPublishMessage}
    (h : ∀ k, Evolves (messages k) (messages' k)) {phase : RpcPhase} (hm : Matches messages phase) :
    Matches messages' phase := by
  cases phase with
  | found d m => exact (h m).id hm
  | sending d m response => exact ⟨(h m).id hm.1, (h m).1.trans hm.2⟩
  | idle | sent | ended => trivial

theorem Consistent.evolve {s : RabbitRpcs} (hs : Consistent s) {messages : ℕ → MQPublishMessage}
    (h : ∀ k, Evolves (s.table.messages k) (messages k)) :
    Consistent { s with table := { s.table with messages } } :=
  ⟨fun id m hm => (h m).id (hs.registered id m hm), fun c hc => (hs.phases c hc).evolve h,
    fun r hr => ⟨(h _).id (hs.received r hr).1, (h _).1.trans (hs.received r hr).2⟩⟩

theorem Handles.consistent {t t' : RpcTable} {c c' : RpcConsumer} {e : ConsumerEvent} {consumers : List RpcConsumer}
    (h : Handles t c e t' c') (hc : c ∈ consumers) (hs : Consistent { table := t, consumers }) :
    Consistent { table := t', consumers } ∧ Matches t'.messages c'.phase := by
  have hmatches := hs.phases c hc
  cases h with
  | deliver | close => exact ⟨hs, hmatches⟩
  | refuse hd => exact ⟨⟨hs.registered, hs.phases, hs.received⟩, trivial⟩
  | find hm => exact ⟨hs, hs.registered _ _ hm⟩
  | send he => exact ⟨hs, hmatches, rfl⟩
  | skip | finish => exact ⟨hs, trivial⟩
  | receive =>
    refine ⟨⟨hs.registered, hs.phases, fun r hr => ?_⟩, trivial⟩
    rcases List.mem_append.mp hr with hr | hr
    · exact hs.received r hr
    · obtain rfl := List.mem_singleton.mp hr
      exact hmatches
  | forget =>
    exact ⟨⟨fun id m hm => hs.registered id m (GoMap.of_delete_eq_some hm).2, hs.phases, hs.received⟩, trivial⟩

theorem ensureRPCCorrelationID_id (t : RpcTable) (uuid : String) (m : ℕ) :
    ((ensureRPCCorrelationID t uuid m).messages m).correlationID =
      if "" = (t.messages m).correlationID then uuid else (t.messages m).correlationID :=
  congrArg MQPublishMessage.correlationID (if_pos rfl)

theorem ensureRPCCorrelationID_cbs (t : RpcTable) (uuid : String) (m : ℕ) :
    (ensureRPCCorrelationID t uuid m).cbs = t.cbs ∨ (ensureRPCCorrelationID t uuid m).cbs =
      t.cbs.store ((ensureRPCCorrelationID t uuid m).messages m).correlationID m := by
  rw [ensureRPCCorrelationID_id]
  exact ite_eq_or_eq _ _ _

theorem ensureRPCCorrelationID_consistent {s : RabbitRpcs} (hs : Consistent s) {uuid : String} (huuid : uuid ≠ "")
    (m : ℕ) : Consistent { s with table := ensureRPCCorrelationID s.table uuid m } := by
  have hkept := hs.evolve fun k => ensureRPCCorrelationID_evolves s.table uuid m k
  refine ⟨fun id k hk => ?_, hkept.phases, hkept.received⟩
  rcases ensureRPCCorrelationID_cbs s.table uuid m with hcbs | hcbs
  · exact hkept.registered id k (hcbs ▸ hk)
  · rcases GoMap.of_store_eq_some (hcbs ▸ hk) with ⟨rfl, rfl⟩ | ⟨-, hk⟩
    · refine ⟨rfl, ?_⟩
      rw [ensureRPCCorrelationID_id]
      split_ifs with hempty
      · exact huuid.symm
      · exact hempty
    · exact hkept.registered id k hk

theorem step_consistent {s s' : RabbitRpcs} {e : Event} (hs : Consistent s) (h : step s e = some s') :
    Consistent s' := by
  cases e with
  | publish m uuid =>
    rw [step] at h
    split_ifs at h with huuid
    obtain rfl := Option.some.inj h
    exact ensureRPCCorrelationID_consistent hs huuid m
  | consume =>
    obtain rfl := Option.some.inj h
    refine ⟨hs.registered, fun c hc => ?_, hs.received⟩
    rcases List.mem_append.mp hc with hc | hc
    · exact hs.phases c hc
    · obtain rfl := List.mem_singleton.mp hc
      trivial
  | consumer k e =>
    obtain ⟨c, t, c', hc, hhandles, rfl⟩ := step_consumer h
    obtain ⟨hkept, hphase⟩ := hhandles.consistent (List.mem_of_getElem? hc) hs
    refine ⟨hkept.registered, fun x hx => ?_, hkept.received⟩
    rcases List.mem_or_eq_of_mem_set hx with hx | rfl
    · exact hkept.phases x hx
    · exact hphase
  | onClosed m =>
    have hevolves := step_evolves h
    obtain rfl := Option.some.inj h
    exact hs.evolve hevolves

/-- After any interleaving each delivery is with its goroutine, was acknowledged or was refused, as often
as it was handed over; each response that was received answers a delivery of its own and was sent on the
channel of the message whose identifier it carries. -/
theorem run_settles_deliveries (messages : ℕ → MQPublishMessage) (es : List Event) {s : RabbitRpcs}
    (hrun : run step (start messages) es = some s) :
    (es.filterMap Event.delivery?).Perm (s.pending ++ (s.table.acked ++ s.table.nacked)) ∧
      (s.table.received.map ReceivedResponse.resp).Subperm
        ((es.filterMap Event.delivery?).map fun d => generateMQResponseMessage d d.exchange) ∧
      ∀ r ∈ s.table.received, (s.table.messages r.message).correlationID = r.resp.correlationID ∧
        "" ≠ r.resp.correlationID ∧ (s.table.messages r.message).response = some r.channel := by
  have hsettled := run_settles hrun
  have hnothing : (start messages).pending ++
      ((start messages).table.acked ++ (start messages).table.nacked) = [] := rfl
  rw [hnothing, List.append_nil] at hsettled
  have hnone : Answered (start messages) := List.nil_subperm
  have hanswered : Answered s := invariant_of_run (fun _ _ _ h ht => step_answered h ht) hnone hrun
  have hstart : Consistent (start messages) :=
    ⟨fun _ _ h => (nomatch h), fun _ h => absurd h List.not_mem_nil, fun _ h => absurd h List.not_mem_nil⟩
  have hconsistent : Consistent s := invariant_of_run (fun _ _ _ h ht => step_consistent h ht) hstart hrun
  refine ⟨hsettled.symm, hanswered.subperm.trans (hsettled.map responseTo).subperm, fun r hr => ?_⟩
  obtain ⟨⟨hid, hne⟩, hchannel⟩ := hconsistent.received r hr
  exact ⟨hid, hne, hchannel⟩

/-- A call is answered while a delivery under an unknown identifier is refused. -/
theorem run_settles_deliveries_both : ∃ s, run step (start fun _ => { response := some 7 })
    [.consume, .publish 0 "u", .consumer 0 (.deliver { correlationId := "u" }),
      .consumer 0 (.deliver { correlationId := "v" }), .consumer 0 .take, .consumer 0 .respond,
      .consumer 0 .receive, .consumer 0 .forget, .consumer 0 .take] = some s ∧
    s.table.nacked = [{ correlationId := "v" }] ∧
    (s.table.received.map ReceivedResponse.resp).Subperm
      (([{ correlationId := "u" }, { correlationId := "v" }] : List Delivery).map
        fun d => generateMQResponseMessage d d.exchange) :=
  ⟨_, rfl, rfl, (run_settles_deliveries (fun _ => { response := some 7 })
    [.consume, .publish 0 "u", .consumer 0 (.deliver { correlationId := "u" }),
      .consumer 0 (.deliver { correlationId := "v" }), .consumer 0 .take, .consumer 0 .respond,
      .consumer 0 .receive, .consumer 0 .forget, .consumer 0 .take] rfl).2.1⟩

/-! ## Goroutines that are blocked for good -/

/-- The goroutine is busy with a delivery and stays where it is whatever happens. -/
def Blocked (s : RabbitRpcs) (k : ℕ) : Prop :=
  ∃ c d, s.consumers[k]? = some c ∧ d ∈ busyWith c.phase ∧
    ∀ es t, run step s es = some t → (t.consumers[k]?).map RpcConsumer.phase = some c.phase

/-- What the messages were like that goroutines send to. -/
def SendsAsked (messages : ℕ → MQPublishMessage) (s : RabbitRpcs) : Prop :=
  ∀ c ∈ s.consumers, ∀ d m response, c.phase = .sending d m response →
    (messages m).callbackEnabled ∧ (messages m).response = response

theorem step_sendsAsked {messages : ℕ → MQPublishMessage} {s s' : RabbitRpcs} {e : Event}
    (hs : SendsAsked messages s) (hkept : ∀ m, Evolves (messages m) (s.table.messages m))
    (h : step s e = some s') : SendsAsked messages s' := by
  cases e with
  | publish m uuid =>
    rw [step] at h
    split_ifs at h
    obtain rfl := Option.some.inj h
    exact hs
  | consume =>
    obtain rfl := Option.some.inj h
    intro c hc d m response hphase
    rcases List.mem_append.mp hc with hc | hc
    · exact hs c hc d m response hphase
    · obtain rfl := List.mem_singleton.mp hc
      cases hphase
  | consumer k e =>
    obtain ⟨c, t, c', hc, hhandles, rfl⟩ := step_consumer h
    have hold := hs c (List.mem_of_getElem? hc)
    intro x hx d m response hphase
    rcases List.mem_or_eq_of_mem_set hx with hx | rfl
    · exact hs x hx d m response hphase
    · cases hhandles with
      | deliver | close => exact hold d m response hphase
      | send he =>
        cases hphase
        exact ⟨(hkept m).2.2 he, (hkept m).1.symm⟩
      | refuse | find | skip | receive | forget | finish => cases hphase
  | onClosed m =>
    obtain rfl := Option.some.inj h
    exact hs

theorem run_sendsAsked {messages : ℕ → MQPublishMessage} {es : List Event} {s : RabbitRpcs}
    (hrun : run step (start messages) es = some s) : SendsAsked messages s := by
  have hnone : SendsAsked messages (start messages) := fun _ h => absurd h List.not_mem_nil
  have hstep : ∀ (t : RabbitRpcs) e u, (SendsAsked messages t ∧ ∀ m, Evolves (messages m) (t.table.messages m)) →
      step t e = some u → SendsAsked messages u ∧ ∀ m, Evolves (messages m) (u.table.messages m) :=
    fun _ _ _ h ht => ⟨step_sendsAsked h.1 h.2 ht, fun m => (h.2 m).trans (step_evolves ht m)⟩
  exact (invariant_of_run hstep ⟨hnone, fun m => .refl (messages m)⟩ hrun).1

theorem step_of_handles {s : RabbitRpcs} {k : ℕ} {c c' : RpcConsumer} {t : RpcTable} {e : ConsumerEvent}
    (hc : s.consumers[k]? = some c) (h : handleRPCConsume s.table c e = some (t, c')) :
    step s (.consumer k e) = some { table := t, consumers := s.consumers.set k c' } := by
  simp only [step, hc, h]

theorem not_blocked {s : RabbitRpcs} {k : ℕ} {c c' : RpcConsumer} {t : RpcTable} {e : ConsumerEvent}
    (hc : s.consumers[k]? = some c) (h : handleRPCConsume s.table c e = some (t, c'))
    (hphase : c'.phase ≠ c.phase) : ¬ Blocked s k := by
  rintro ⟨x, d, hx, -, hstays⟩
  obtain rfl := Option.some.inj (hc.symm.trans hx)
  have hrun := hstays [.consumer k e] _ (run_cons_eq_some.mpr ⟨_, step_of_handles hc h, rfl⟩)
  obtain ⟨hk, -⟩ := List.getElem?_eq_some_iff.mp hc
  rw [List.getElem?_set_self hk] at hrun
  exact hphase (Option.some.inj hrun)

/-- A goroutine that sends on no channel stays where it is. -/
theorem step_stays {s s' : RabbitRpcs} {e : Event} {k m : ℕ} {d : Delivery}
    (hs : (s.consumers[k]?).map RpcConsumer.phase = some (.sending d m none)) (h : step s e = some s') :
    (s'.consumers[k]?).map RpcConsumer.phase = some (.sending d m none) := by
  obtain ⟨c, hc, hphase⟩ := Option.map_eq_some_iff.mp hs
  cases e with
  | publish m uuid =>
    rw [step] at h
    split_ifs at h
    obtain rfl := Option.some.inj h
    exact hs
  | consume =>
    obtain rfl := Option.some.inj h
    obtain ⟨hk, -⟩ := List.getElem?_eq_some_iff.mp hc
    rw [List.getElem?_append_left hk]
    exact hs
  | consumer i e =>
    obtain ⟨x, t, x', hx, hhandles, rfl⟩ := step_consumer h
    by_cases hik : i = k
    · subst hik
      obtain rfl := Option.some.inj (hc.symm.trans hx)
      obtain ⟨hi, -⟩ := List.getElem?_eq_some_iff.mp hc
      rw [List.getElem?_set_self hi]
      cases hhandles with
      | deliver | close => exact congrArg some hphase
      | refuse | find | send | skip | receive | forget | finish => cases hphase
    · rw [List.getElem?_set_ne hik]
      exact hs
  | onClosed m =>
    obtain rfl := Option.some.inj h
    exact hs

/-- A reply to a message without a response channel is sent on no channel. -/
theorem exists_run_sending {messages : ℕ → MQPublishMessage} {m : ℕ} (he : (messages m).callbackEnabled)
    (hr : (messages m).response = none) : ∃ es s d, run step (start messages) es = some s ∧
      s.consumers = [{ phase := .sending d m none }] := by
  have hcbs : (ensureRPCCorrelationID { messages } "u" m).cbs
      ((ensureRPCCorrelationID { messages } "u" m).messages m).correlationID = some m := by
    rw [ensureRPCCorrelationID_id]
    exact GoMap.store_self _ _ _
  obtain ⟨hresponse, -, -⟩ := ensureRPCCorrelationID_evolves { messages } "u" m m
  have henabled : ((ensureRPCCorrelationID { messages } "u" m).messages m).callbackEnabled = true :=
    (congrArg MQPublishMessage.callbackEnabled (if_pos rfl)).trans he
  generalize htable : ensureRPCCorrelationID { messages } "u" m = t at hcbs hresponse henabled
  generalize (t.messages m).correlationID = id at hcbs
  refine ⟨[.consume, .publish m "u", .consumer 0 (.deliver { correlationId := id }), .consumer 0 .take,
    .consumer 0 .respond], ⟨t, [{ phase := .sending { correlationId := id } m none }]⟩, _, ?_, rfl⟩
  simp [run, step, start, handleRPCConsume, take, htable, hcbs, henabled, hresponse, hr]

/-- Some interleaving blocks a goroutine for good exactly when a message may be published whose callback
is enabled and that has no response channel. -/
theorem exists_blocked_iff (messages : ℕ → MQPublishMessage) :
    (∃ es s k, run step (start messages) es = some s ∧ Blocked s k) ↔
      ∃ m, (messages m).callbackEnabled ∧ (messages m).response = none := by
  constructor
  · rintro ⟨es, s, k, hrun, hblocked⟩
    have hblocked' := hblocked
    obtain ⟨c, d, hc, hd, -⟩ := hblocked'
    obtain ⟨ds, closed, phase⟩ := c
    cases phase with
    | found d m =>
      refine absurd hblocked (not_blocked (e := .respond) hc rfl ?_)
      dsimp only
      split_ifs <;> exact fun h => nomatch h
    | sending d m response =>
      cases response with
      | none =>
        obtain ⟨he, hr⟩ := run_sendsAsked hrun _ (List.mem_of_getElem? hc) d m none rfl
        exact ⟨m, he, hr⟩
      | some channel => exact absurd hblocked (not_blocked (e := .receive) hc rfl fun h => nomatch h)
    | sent d => exact absurd hblocked (not_blocked (e := .forget) hc rfl fun h => nomatch h)
    | idle | ended => exact absurd hd List.not_mem_nil
  · rintro ⟨m, he, hr⟩
    obtain ⟨es, s, d, hrun, hconsumers⟩ := exists_run_sending he hr
    have hconsumer : s.consumers[0]? = some { phase := .sending d m none } := by rw [hconsumers]; rfl
    refine ⟨es, s, 0, hrun, _, d, hconsumer, List.mem_singleton_self d, fun es t ht => ?_⟩
    exact invariant_of_run (fun _ _ _ h ht => step_stays h ht) (congrArg (Option.map RpcConsumer.phase) hconsumer) ht

end RabbitRpcs
end Gocom
