import Gocom.GuardedRuns
import Gocom.KafkaWorker
import Mathlib.Data.List.Nodup
import Mathlib.Tactic.ByContra

/-!
# Sends that wait for a reply

Every channel is idle in the pool or held by one send, and the channel of a waiting send is
registered under its correlation identifier until the reply has been read. This is kept by
every step, except that a send may register under an identifier that another send waits for.
-/

namespace Gocom

open Runs

namespace SendPhase

/-- The channel and the identifier a reply is waited for on. -/
def awaits : SendPhase → Option (ℕ × String)
  | .sending req _ (some ch) => some (ch, req.publishMsg.correlationID)
  | .waiting req ch => some (ch, req.publishMsg.correlationID)
  | _ => none

def holds : SendPhase → Option ℕ
  | .sending _ _ ch => ch
  | .waiting _ ch => some ch
  | .received _ ch _ => some ch
  | _ => none

/-- A response carries the identifier of the request. -/
def Answered : SendPhase → Prop
  | .received req _ packet => packet.correlationId = req.publishMsg.correlationID
  | .returned req (some resp) => resp.correlationID = req.publishMsg.correlationID
  | _ => True

theorem holds_of_awaits {p : SendPhase} {ch : ℕ} {id : String} (h : p.awaits = some (ch, id)) :
    p.holds = some ch := by
  cases p with
  | sending req sendBytes ch' =>
    cases ch' with
    | none => cases h
    | some ch' => exact congrArg (Option.map Prod.fst) h
  | waiting req ch' => exact congrArg (Option.map Prod.fst) h
  | idle => cases h
  | opening req => cases h
  | called req => cases h
  | received req ch' packet => cases h
  | returned req resp => cases h
  | failed req err => cases h

end SendPhase

namespace KafkaWorker

variable {c : PacketCodec}

/-- The reply for an identifier has been read, and its reader hands it to the channel. -/
def ReplyRead (w : KafkaWorker) (ch : ℕ) (id : String) : Prop :=
  ∃ topic packet, w.readers topic = some (ch, packet) ∧ packet.correlationId = id

/-- Waiting channels are registered until their reply is read, and lie outside the pool;
responses carry the identifier of their request. -/
structure WaitersSound (w : KafkaWorker) : Prop where
  registered : ∀ i ch id, (w.senders i).awaits = some (ch, id) →
    w.waitResponseMessage id = some ch ∨ w.ReplyRead ch id
  answered : ∀ i req resp, w.senders i = .returned req (some resp) →
    resp.correlationID = req.publishMsg.correlationID
  available : ∀ i ch id, (w.senders i).awaits = some (ch, id) → ch ∉ w.availableChannels

/-! ## Channels have one holder -/

structure Consistent (w : KafkaWorker) : Prop where
  nodup : w.availableChannels.Nodup
  made : ∀ ch ∈ w.availableChannels, ch < w.channels
  available : ∀ i ch, (w.senders i).holds = some ch → ch ∉ w.availableChannels
  held : ∀ i ch, (w.senders i).holds = some ch → ch < w.channels
  unique : ∀ i j ch, (w.senders i).holds = some ch → (w.senders j).holds = some ch → i = j
  registered : ∀ i ch id, (w.senders i).awaits = some (ch, id) →
    w.waitResponseMessage id = some ch ∨ w.ReplyRead ch id
  awaited : ∀ id ch, w.waitResponseMessage id = some ch → ∃ i, (w.senders i).awaits = some (ch, id)
  reading : ∀ topic ch packet, w.readers topic = some (ch, packet) →
    (∃ i, (w.senders i).awaits = some (ch, packet.correlationId)) ∧
      ∀ id, w.waitResponseMessage id ≠ some ch
  oneReader : ∀ topic topic' ch packet packet', w.readers topic = some (ch, packet) →
    w.readers topic' = some (ch, packet') → topic = topic'
  answered : ∀ i, (w.senders i).Answered

theorem Consistent.sound {w : KafkaWorker} (h : Consistent w) : w.WaitersSound where
  registered := h.registered
  answered i req resp hi := by
    have hans := h.answered i
    rw [hi] at hans
    exact hans
  available i ch _ hi := h.available i ch (SendPhase.holds_of_awaits hi)

theorem consistent_new (privateTopic groupID contentEncoding msgType : String)
    (useOriginalContent : Bool) : Consistent ((newKafkaWorker privateTopic groupID).configured
      contentEncoding msgType useOriginalContent) where
  nodup := List.nodup_nil
  made _ h := (nomatch h)
  available _ _ h := (nomatch h)
  held _ _ h := (nomatch h)
  unique _ _ _ h := (nomatch h)
  registered _ _ _ h := (nomatch h)
  awaited _ _ h := (nomatch h)
  reading _ _ _ h := (nomatch h)
  oneReader _ _ _ _ _ h := (nomatch h)
  answered _ := trivial

/-- What the waiters depend on is unchanged. -/
structure SameWaiters (w w' : KafkaWorker) : Prop where
  privateTopic : w'.privateTopic = w.privateTopic
  channels : w'.channels = w.channels
  availableChannels : w'.availableChannels = w.availableChannels
  waitResponseMessage : w'.waitResponseMessage = w.waitResponseMessage
  senders : w'.senders = w.senders
  readers : w'.readers = w.readers

theorem SameWaiters.trans {w w' w'' : KafkaWorker} (h : SameWaiters w w')
    (h' : SameWaiters w' w'') : SameWaiters w w'' where
  privateTopic := h'.privateTopic.trans h.privateTopic
  channels := h'.channels.trans h.channels
  availableChannels := h'.availableChannels.trans h.availableChannels
  waitResponseMessage := h'.waitResponseMessage.trans h.waitResponseMessage
  senders := h'.senders.trans h.senders
  readers := h'.readers.trans h.readers

theorem Consistent.same {w w' : KafkaWorker} (h : Consistent w) (hs : SameWaiters w w') :
    Consistent w' := by
  obtain ⟨-, hchannels, havailable, hwait, hsenders, hreaders⟩ := hs
  constructor
  · rw [havailable]
    exact h.nodup
  · rw [havailable, hchannels]
    exact h.made
  · rw [havailable, hsenders]
    exact h.available
  · rw [hchannels, hsenders]
    exact h.held
  · rw [hsenders]
    exact h.unique
  · simp only [ReplyRead, hsenders, hwait, hreaders]
    exact h.registered
  · rw [hsenders, hwait]
    exact h.awaited
  · rw [hsenders, hwait, hreaders]
    exact h.reading
  · rw [hreaders]
    exact h.oneReader
  · rw [hsenders]
    exact h.answered

theorem sendWorker_same (w : KafkaWorker) (topic : String) (message : Bytes) :
    SameWaiters w (w.sendWorker topic message) := by
  rw [sendWorker]
  cases w.openTopicChannel topic <;> exact ⟨rfl, rfl, rfl, rfl, rfl, rfl⟩

theorem subscribe_same (w : KafkaWorker) (topic : String) (consumeProxy : MQConsumerProxy) :
    SameWaiters w (w.subscribe topic consumeProxy) := by
  simp only [subscribe]
  split_ifs <;> exact ⟨rfl, rfl, rfl, rfl, rfl, rfl⟩

theorem reply_same (w : KafkaWorker) (topic : String) (message : MQPublishMessage) (msgID : String)
    (now : ℕ) : SameWaiters w (reply c w topic message msgID now) := sendWorker_same w topic _

theorem consume_same (w : KafkaWorker) (consumerProxy : MQConsumerProxy) (packet : KafkaPacket)
    (result : Option MQPublishMessage) (now : ℕ) :
    SameWaiters w (consume c w consumerProxy packet result now) := by
  rw [consume]
  cases consumerProxy.callback with
  | none => exact ⟨rfl, rfl, rfl, rfl, rfl, rfl⟩
  | some callback =>
    cases result with
    | none => exact ⟨rfl, rfl, rfl, rfl, rfl, rfl⟩
    | some result =>
      dsimp only
      split_ifs
      · refine SameWaiters.trans ?_ (reply_same _ _ _ _ _)
        exact ⟨rfl, rfl, rfl, rfl, rfl, rfl⟩
      · exact ⟨rfl, rfl, rfl, rfl, rfl, rfl⟩

/-! ## What each step does to the waiters -/

theorem setSender_self (w : KafkaWorker) (i : ℕ) (p : SendPhase) :
    (w.setSender i p).senders i = p := if_pos rfl

theorem setSender_of_ne {i j : ℕ} (hji : j ≠ i) (w : KafkaWorker) (p : SendPhase) :
    (w.setSender i p).senders j = w.senders j := if_neg hji

theorem forall_setSender {P : SendPhase → Prop} {w : KafkaWorker} {i : ℕ} {p : SendPhase}
    (h : ∀ j, P (w.senders j)) (hp : P p) (j : ℕ) : P ((w.setSender i p).senders j) := by
  by_cases hji : j = i
  · rw [hji, setSender_self]
    exact hp
  · rw [setSender_of_ne hji]
    exact h j

theorem apply_setSender {γ : Type*} (f : SendPhase → γ) {w : KafkaWorker} {i : ℕ} {p : SendPhase}
    (hp : f p = f (w.senders i)) (j : ℕ) : f ((w.setSender i p).senders j) = f (w.senders j) := by
  by_cases hji : j = i
  · rw [hji, setSender_self, hp]
  · rw [setSender_of_ne hji]

theorem of_setSender_eq_some {γ : Type*} {f : SendPhase → Option γ} {w : KafkaWorker} {i j : ℕ}
    {p : SendPhase} {x : γ} (hj : f ((w.setSender i p).senders j) = some x) :
    (j = i ∧ f p = some x) ∨ (j ≠ i ∧ f (w.senders j) = some x) := by
  by_cases hji : j = i
  · rw [hji, setSender_self] at hj
    exact .inl ⟨hji, hj⟩
  · rw [setSender_of_ne hji] at hj
    exact .inr ⟨hji, hj⟩

theorem of_setReader_eq_some {w : KafkaWorker} {topic topic' : String}
    {r : Option (ℕ × KafkaPacket)} {x : ℕ × KafkaPacket}
    (h : (w.setReader topic r).readers topic' = some x) :
    (topic' = topic ∧ r = some x) ∨ (topic' ≠ topic ∧ w.readers topic' = some x) := by
  by_cases htopic : topic' = topic
  · exact .inl ⟨htopic, (if_pos htopic).symm.trans h⟩
  · exact .inr ⟨htopic, (if_neg htopic).symm.trans h⟩

/-- A send may move on while it waits on the same channel, or on none. -/
theorem Consistent.setSender {w : KafkaWorker} (h : Consistent w) {i : ℕ} {p : SendPhase}
    (hholds : p.holds = (w.senders i).holds) (hawaits : p.awaits = (w.senders i).awaits)
    (hp : p.Answered) : Consistent (w.setSender i p) := by
  have hheld := apply_setSender SendPhase.holds hholds
  have hawaited := apply_setSender SendPhase.awaits hawaits
  refine ⟨h.nodup, h.made, ?_, ?_, ?_, ?_, ?_, ?_, h.oneReader, forall_setSender h.answered hp⟩
  · simp only [hheld]
    exact h.available
  · simp only [hheld]
    exact h.held
  · simp only [hheld]
    exact h.unique
  · simp only [hawaited]
    exact h.registered
  · simp only [hawaited]
    exact h.awaited
  · simp only [hawaited]
    exact h.reading

/-- The channel obtained is out of the pool and nobody holds it. -/
structure Fresh (w : KafkaWorker) (ch : ℕ) : Prop where
  available : ch ∉ w.availableChannels
  made : ch < w.channels
  held : ∀ i, (w.senders i).holds ≠ some ch

theorem obtainChannel_spec {w : KafkaWorker} (h : Consistent w) :
    Consistent w.obtainChannel.1 ∧ Fresh w.obtainChannel.1 w.obtainChannel.2 ∧
      w.obtainChannel.1.waitResponseMessage = w.waitResponseMessage ∧
      w.obtainChannel.1.senders = w.senders := by
  rw [obtainChannel]
  cases hlast : w.availableChannels.getLast? with
  | none =>
    have hempty := List.getLast?_eq_none_iff.mp hlast
    have hnew : ∀ i, (w.senders i).holds ≠ some w.channels :=
      fun i hi => lt_irrefl _ (h.held i _ hi)
    refine ⟨⟨h.nodup, ?_, h.available, ?_, h.unique, h.registered, h.awaited, h.reading,
      h.oneReader, h.answered⟩, ⟨?_, Nat.lt_succ_self _, hnew⟩, rfl, rfl⟩
    · exact fun ch hch => Nat.lt_succ_of_lt (h.made ch hch)
    · exact fun i ch hi => Nat.lt_succ_of_lt (h.held i ch hi)
    · simp [newChannel, hempty]
  | some ch =>
    obtain ⟨front, hfront⟩ := List.getLast?_eq_some_iff.mp hlast
    have hmem : ch ∈ w.availableChannels := by simp [hfront]
    have hfree : ∀ i, (w.senders i).holds ≠ some ch := fun i hi => h.available i ch hi hmem
    have hdrop : w.availableChannels.dropLast = front := by simp [hfront]
    have hsub : ∀ x ∈ front, x ∈ w.availableChannels := fun x hx => by simp [hfront, hx]
    have hnodup : (front ++ [ch]).Nodup := hfront ▸ h.nodup
    dsimp only
    rw [hdrop]
    refine ⟨⟨?_, ?_, ?_, h.held, h.unique, h.registered, h.awaited, h.reading, h.oneReader,
      h.answered⟩, ⟨?_, h.made ch hmem, hfree⟩, rfl, rfl⟩
    · exact hnodup.of_append_left
    · exact fun x hx => h.made x (hsub x hx)
    · exact fun i x hi hx => h.available i x hi (hsub x hx)
    · intro hch
      exact (List.nodup_append.mp hnodup).2.2 ch hch ch (by simp) rfl

/-- Register a fresh channel under an identifier nobody is registered for. -/
theorem Consistent.registered_fresh {w : KafkaWorker} (h : Consistent w) {ch : ℕ} (hf : Fresh w ch)
    {i : ℕ} (hi : (w.senders i).holds = none) {req : SendRequest} (sendBytes : Bytes)
    (hid : w.waitResponseMessage req.publishMsg.correlationID = none) :
    Consistent ({ w with waitResponseMessage :=
      w.waitResponseMessage.store req.publishMsg.correlationID ch }.setSender i
        (.sending req sendBytes (some ch))) := by
  set p : SendPhase := .sending req sendBytes (some ch) with hp
  have hawaits : p.awaits = some (ch, req.publishMsg.correlationID) := rfl
  have hother : ∀ {j : ℕ} {x : ℕ} {id : String}, (w.senders j).awaits = some (x, id) → j ≠ i := by
    rintro j x id hj rfl
    rw [SendPhase.holds_of_awaits hj] at hi
    cases hi
  refine ⟨h.nodup, h.made, ?available, ?held, ?unique, ?registered, ?awaited, ?reading,
    h.oneReader, forall_setSender h.answered trivial⟩
  case available =>
    intro j x hj
    rcases of_setSender_eq_some hj with ⟨-, hx⟩ | ⟨-, hj⟩
    · exact Option.some.inj hx ▸ hf.available
    · exact h.available j x hj
  case held =>
    intro j x hj
    rcases of_setSender_eq_some hj with ⟨-, hx⟩ | ⟨-, hj⟩
    · exact Option.some.inj hx ▸ hf.made
    · exact h.held j x hj
  case unique =>
    intro j k x hj hk
    rcases of_setSender_eq_some hj with ⟨hji, hxj⟩ | ⟨-, hj⟩ <;>
      rcases of_setSender_eq_some hk with ⟨hki, hxk⟩ | ⟨-, hk⟩
    · rw [hji, hki]
    · exact absurd (Option.some.inj hxj ▸ hk) (hf.held k)
    · exact absurd (Option.some.inj hxk ▸ hj) (hf.held j)
    · exact h.unique j k x hj hk
  case registered =>
    intro j x id hj
    rcases of_setSender_eq_some hj with ⟨-, hx⟩ | ⟨-, hj⟩
    · cases hx
      exact .inl (GoMap.store_self _ _ _)
    · refine (h.registered j x id hj).imp_left fun hwait => ?_
      have hne : id ≠ req.publishMsg.correlationID := by
        rintro rfl
        rw [hid] at hwait
        cases hwait
      exact (GoMap.store_of_ne hne _ _).trans hwait
  case awaited =>
    intro id x hwait
    rcases GoMap.of_store_eq_some hwait with ⟨rfl, rfl⟩ | ⟨-, hwait⟩
    · exact ⟨i, (congrArg SendPhase.awaits (setSender_self _ _ _)).trans hawaits⟩
    · obtain ⟨j, hj⟩ := h.awaited id x hwait
      exact ⟨j, (congrArg SendPhase.awaits (setSender_of_ne (hother hj) _ _)).trans hj⟩
  case reading =>
    intro topic x packet hread
    obtain ⟨⟨j, hj⟩, hnone⟩ := h.reading topic x packet hread
    refine ⟨⟨j, (congrArg SendPhase.awaits (setSender_of_ne (hother hj) _ _)).trans hj⟩,
      fun id hwait => ?_⟩
    rcases GoMap.of_store_eq_some hwait with ⟨-, rfl⟩ | ⟨-, hwait⟩
    · exact hf.held j (SendPhase.holds_of_awaits hj)
    · exact hnone id hwait

theorem Consistent.register {w : KafkaWorker} (h : Consistent w) {i : ℕ} {req : SendRequest}
    (hi : w.senders i = .called req) (now : ℕ)
    (hfree : req.needReply = true → w.waitResponseMessage req.publishMsg.correlationID = none) :
    Consistent (register c w i req now) := by
  rw [KafkaWorker.register]
  cases c.marshal w.useOriginalContent (w.sendPacket req.topic req.publishMsg now) with
  | mk sendBytes err =>
    cases err with
    | some err => exact h.setSender (by rw [hi]; rfl) (by rw [hi]; rfl) trivial
    | none =>
      dsimp only
      split_ifs with hneed
      · obtain ⟨hobtained, hfresh, hwait, hsenders⟩ := obtainChannel_spec h
        refine hobtained.registered_fresh hfresh ?_ sendBytes ?_
        · rw [hsenders, hi]
          rfl
        · rw [hwait]
          exact hfree hneed
      · exact h.setSender (by rw [hi]; rfl) (by rw [hi]; rfl) trivial

/-- The reply for an identifier is read and its channel is looked up. -/
theorem Consistent.replyRead {w : KafkaWorker} (h : Consistent w) {topic : String}
    (hidle : w.readers topic = none) {packet : KafkaPacket} {ch : ℕ}
    (hwait : w.waitResponseMessage packet.correlationId = some ch) :
    Consistent ({ w with
      waitResponseMessage := w.waitResponseMessage.delete packet.correlationId }.setReader topic
        (some (ch, packet))) := by
  obtain ⟨i, hi⟩ := h.awaited _ _ hwait
  -- a channel waits for one identifier only
  have honly : ∀ id, w.waitResponseMessage id = some ch → id = packet.correlationId := by
    intro id hid
    obtain ⟨j, hj⟩ := h.awaited id ch hid
    have hij := h.unique i j ch (SendPhase.holds_of_awaits hi) (SendPhase.holds_of_awaits hj)
    rw [← hij, hi] at hj
    cases hj
    rfl
  refine ⟨h.nodup, h.made, h.available, h.held, h.unique, ?registered, ?awaited, ?reading,
    ?oneReader, h.answered⟩
  case registered =>
    intro j x id hj
    rcases h.registered j x id hj with hid | ⟨topic', packet', hread, hid⟩
    · by_cases hsame : id = packet.correlationId
      · refine .inr ⟨topic, packet, ?_, hsame.symm⟩
        rw [hsame, hwait] at hid
        exact (if_pos rfl).trans (congrArg (fun x => some (x, packet)) (Option.some.inj hid))
      · exact .inl ((GoMap.delete_of_ne hsame _).trans hid)
    · refine .inr ⟨topic', packet', ?_, hid⟩
      have hne : topic' ≠ topic := by
        rintro rfl
        rw [hidle] at hread
        cases hread
      exact (if_neg hne).trans hread
  case awaited =>
    intro id x hid
    exact h.awaited id x (GoMap.of_delete_eq_some hid).2
  case reading =>
    intro topic' x packet' hread
    rcases of_setReader_eq_some hread with ⟨-, hx⟩ | ⟨-, hread⟩
    · cases hx
      refine ⟨⟨i, hi⟩, fun id hid => ?_⟩
      obtain ⟨hne, hid⟩ := GoMap.of_delete_eq_some hid
      exact hne (honly id hid)
    · obtain ⟨hj, hnone⟩ := h.reading topic' x packet' hread
      exact ⟨hj, fun id hid => hnone id (GoMap.of_delete_eq_some hid).2⟩
  case oneReader =>
    intro topic₁ topic₂ x packet₁ packet₂ h₁ h₂
    rcases of_setReader_eq_some h₁ with ⟨ht₁, hx₁⟩ | ⟨-, hr₁⟩ <;>
      rcases of_setReader_eq_some h₂ with ⟨ht₂, hx₂⟩ | ⟨-, hr₂⟩
    · rw [ht₁, ht₂]
    · cases hx₁
      exact absurd hwait ((h.reading topic₂ _ _ hr₂).2 _)
    · cases hx₂
      exact absurd hwait ((h.reading topic₁ _ _ hr₁).2 _)
    · exact h.oneReader topic₁ topic₂ x packet₁ packet₂ hr₁ hr₂

theorem Consistent.read {w : KafkaWorker} (h : Consistent w) {topic : String}
    (hidle : w.readers topic = none) (data : Bytes) (result : Option MQPublishMessage) (now : ℕ) :
    Consistent (bindToOnMessage c w topic data result now) := by
  rw [bindToOnMessage]
  split_ifs
  · exact h
  · cases packetOf c w data with
    | none => exact h
    | some packet =>
      dsimp only
      rw [onMessage]
      cases hwait : w.waitResponseMessage packet.correlationId with
      | some ch => exact h.replyRead hidle hwait
      | none =>
        cases w.consumerProxy packet with
        | none => exact h
        | some consumerProxy => exact h.same (consume_same w consumerProxy packet result now)

/-- The packet arrives at the send whose channel its reader found. -/
theorem Consistent.handOver {w : KafkaWorker} (h : Consistent w) {topic : String} {i ch : ℕ}
    {packet : KafkaPacket} {req : SendRequest} (hread : w.readers topic = some (ch, packet))
    (hi : w.senders i = .waiting req ch) :
    Consistent ((w.setReader topic none).setSender i (.received req ch packet)) := by
  have hself : (w.senders i).awaits = some (ch, req.publishMsg.correlationID) := by rw [hi]; rfl
  have hholds : (w.senders i).holds = some ch := by rw [hi]; rfl
  obtain ⟨⟨j, hj⟩, hnone⟩ := h.reading topic ch packet hread
  obtain rfl := h.unique j i ch (SendPhase.holds_of_awaits hj) hholds
  have hid : packet.correlationId = req.publishMsg.correlationID :=
    congrArg Prod.snd (Option.some.inj (hj.symm.trans hself))
  have hheld : ∀ k, (((w.setReader topic none).setSender j (.received req ch packet)).senders k).holds =
      (w.senders k).holds :=
    apply_setSender (w := w.setReader topic none) SendPhase.holds hholds.symm
  have hstill : ∀ {k x id}, x ≠ ch → (w.senders k).awaits = some (x, id) →
      (((w.setReader topic none).setSender j (.received req ch packet)).senders k).awaits =
        some (x, id) := by
    intro k x id hx hk
    have hkj : k ≠ j := by
      rintro rfl
      rw [SendPhase.holds_of_awaits hk] at hholds
      exact hx (Option.some.inj hholds)
    exact (congrArg SendPhase.awaits (if_neg hkj)).trans hk
  have hreader : ∀ {topic' x packet'}, (w.setReader topic none).readers topic' = some (x, packet') →
      topic' ≠ topic ∧ w.readers topic' = some (x, packet') := by
    intro topic' x packet' hread'
    rcases of_setReader_eq_some hread' with ⟨-, hx⟩ | hold
    · cases hx
    · exact hold
  refine ⟨h.nodup, h.made, ?available, ?held, ?unique, ?registered, ?awaited, ?reading,
    ?oneReader, forall_setSender (w := w.setReader topic none) h.answered hid⟩
  case available =>
    simp only [hheld]
    exact h.available
  case held =>
    simp only [hheld]
    exact h.held
  case unique =>
    simp only [hheld]
    exact h.unique
  case registered =>
    intro k x id hk
    obtain ⟨hkj, hwas⟩ : k ≠ j ∧ (w.senders k).awaits = some (x, id) := by
      rcases of_setSender_eq_some hk with ⟨-, hx⟩ | hold
      · cases hx
      · exact hold
    refine (h.registered k x id hwas).imp_right ?_
    rintro ⟨topic', packet', hread', hid'⟩
    have hx : x ≠ ch := by
      rintro rfl
      exact hkj (h.unique k j _ (SendPhase.holds_of_awaits hwas) hholds)
    have hne : topic' ≠ topic := by
      rintro rfl
      exact hx (congrArg Prod.fst (Option.some.inj (hread'.symm.trans hread)))
    exact ⟨topic', packet', (if_neg hne).trans hread', hid'⟩
  case awaited =>
    intro id x hwait
    obtain ⟨k, hk⟩ := h.awaited id x hwait
    have hx : x ≠ ch := by
      rintro rfl
      exact hnone id hwait
    exact ⟨k, hstill hx hk⟩
  case reading =>
    intro topic' x packet' hread'
    obtain ⟨hne, hwas⟩ := hreader hread'
    obtain ⟨⟨k, hk⟩, hnone'⟩ := h.reading topic' x packet' hwas
    have hx : x ≠ ch := by
      rintro rfl
      exact hne (h.oneReader topic' topic x packet' packet hwas hread)
    exact ⟨⟨k, hstill hx hk⟩, hnone'⟩
  case oneReader =>
    intro topic₁ topic₂ x packet₁ packet₂ h₁ h₂
    exact h.oneReader topic₁ topic₂ x packet₁ packet₂ (hreader h₁).2 (hreader h₂).2

/-- The channel goes back to the pool when the response is returned. -/
theorem Consistent.recycle {w : KafkaWorker} (h : Consistent w) {i ch : ℕ} {req : SendRequest}
    {packet : KafkaPacket} (hi : w.senders i = .received req ch packet) :
    Consistent (w.recycle i req ch packet) := by
  have hholds : (w.senders i).holds = some ch := by rw [hi]; rfl
  have hid : packet.correlationId = req.publishMsg.correlationID := by
    have hans := h.answered i
    rw [hi] at hans
    exact hans
  have hfree := h.available i ch hholds
  rw [KafkaWorker.recycle]
  set p : SendPhase := .returned req (some (convertKafkaPacketToMQConsumerMessage packet)) with hp
  have hheld : ∀ {k x}, (((w.recycleChannel ch).setSender i p).senders k).holds = some x →
      k ≠ i ∧ (w.senders k).holds = some x := by
    intro k x hk
    rcases of_setSender_eq_some hk with ⟨-, hx⟩ | hold
    · cases hx
    · exact hold
  have hawaits : ∀ k, (((w.recycleChannel ch).setSender i p).senders k).awaits =
      (w.senders k).awaits :=
    apply_setSender (w := w.recycleChannel ch) SendPhase.awaits
      (congrArg SendPhase.awaits hi).symm
  refine ⟨?nodup, ?made, ?available, ?held, ?unique, ?registered, ?awaited, ?reading,
    h.oneReader, forall_setSender (w := w.recycleChannel ch) h.answered hid⟩
  case nodup => exact h.nodup.append (List.nodup_singleton ch) (by simpa using hfree)
  case made =>
    intro x hx
    rcases List.mem_append.mp hx with hx | hx
    · exact h.made x hx
    · exact List.mem_singleton.mp hx ▸ h.held i ch hholds
  case available =>
    intro k x hk hx
    obtain ⟨hki, hk⟩ := hheld hk
    rcases List.mem_append.mp hx with hx | hx
    · exact h.available k x hk hx
    · exact hki (h.unique k i ch (List.mem_singleton.mp hx ▸ hk) hholds)
  case held => exact fun k x hk => h.held k x (hheld hk).2
  case unique => exact fun k l x hk hl => h.unique k l x (hheld hk).2 (hheld hl).2
  case registered =>
    simp only [hawaits]
    exact h.registered
  case awaited =>
    simp only [hawaits]
    exact h.awaited
  case reading =>
    simp only [hawaits]
    exact h.reading

/-! ## Runs -/

/-- A send registers under an identifier that nobody is registered for. -/
def OwnIdentifier (w : KafkaWorker) : Event → Prop
  | .register i _ =>
    match w.senders i with
    | .called req =>
      req.needReply = true → w.waitResponseMessage req.publishMsg.correlationID = none
    | _ => True
  | _ => True

theorem step_consistent {w v : KafkaWorker} {e : Event} (h : Consistent w)
    (hown : w.OwnIdentifier e) (hv : step c w e = some v) : Consistent v := by
  cases e with
  | call i req =>
    obtain ⟨hi, rfl⟩ := step_call hv
    rw [openPrivateTopic]
    split_ifs
    · refine Consistent.setSender (h.same ?_) ?_ ?_ trivial
      · exact ⟨rfl, rfl, rfl, rfl, rfl, rfl⟩
      · exact (congrArg SendPhase.holds hi).symm
      · exact (congrArg SendPhase.awaits hi).symm
    · exact h.setSender (by rw [hi]; rfl) (by rw [hi]; rfl) trivial
  | opened i =>
    obtain ⟨req, hi, rfl⟩ := step_opened hv
    have hsame := subscribe_same w w.privateTopic {}
    refine (h.same hsame).setSender ?_ ?_ trivial
    · rw [hsame.senders, hi]
      rfl
    · rw [hsame.senders, hi]
      rfl
  | register i now =>
    obtain ⟨req, hi, rfl⟩ := step_register hv
    simp only [OwnIdentifier, hi] at hown
    exact h.register hi now hown
  | send i =>
    obtain ⟨req, sendBytes, ch, hi, rfl⟩ := step_send hv
    have hsame := sendWorker_same w req.topic sendBytes
    refine (h.same hsame).setSender ?_ ?_ ?_
    · rw [hsame.senders, hi]
      cases ch <;> rfl
    · rw [hsame.senders, hi]
      cases ch <;> rfl
    · cases ch <;> trivial
  | handOver topic i =>
    obtain ⟨req, ch, packet, hread, hi, rfl⟩ := step_handOver hv
    exact h.handOver hread hi
  | recycle i =>
    obtain ⟨req, ch, packet, hi, rfl⟩ := step_recycle hv
    exact h.recycle hi
  | subscribe topic consumeProxy =>
    obtain rfl := Option.some.inj hv
    exact h.same (subscribe_same w topic consumeProxy)
  | read topic data result now =>
    obtain ⟨hidle, rfl⟩ := step_read hv
    exact h.read hidle data result now

/-- Registering keeps the waiters sound exactly when nobody is registered for the identifier. -/
theorem register_sound_iff {w : KafkaWorker} (h : Consistent w) {i : ℕ} {req : SendRequest}
    (hi : w.senders i = .called req) (hneed : req.needReply = true) {now : ℕ} {sendBytes : Bytes}
    (hbytes : c.marshal w.useOriginalContent (w.sendPacket req.topic req.publishMsg now) =
      (sendBytes, none)) :
    WaitersSound (register c w i req now) ↔
      w.waitResponseMessage req.publishMsg.correlationID = none := by
  constructor
  · intro hsound
    by_contra hsome
    obtain ⟨ch, hwait⟩ := Option.ne_none_iff_exists'.mp hsome
    obtain ⟨j, hj⟩ := h.awaited _ ch hwait
    obtain ⟨-, hfresh, -, hsenders⟩ := obtainChannel_spec h
    have hheld := SendPhase.holds_of_awaits hj
    have hji : j ≠ i := by
      rintro rfl
      rw [hi] at hj
      cases hj
    have hreg : register c w i req now = { w.obtainChannel.1 with
        waitResponseMessage := w.obtainChannel.1.waitResponseMessage.store
          req.publishMsg.correlationID w.obtainChannel.2 }.setSender i
            (.sending req sendBytes (some w.obtainChannel.2)) := by
      simp only [KafkaWorker.register, hbytes, hneed, if_true]
      rfl
    have hjreg : ((register c w i req now).senders j).awaits =
        some (ch, req.publishMsg.correlationID) := by
      rw [hreg, setSender_of_ne hji]
      exact hsenders ▸ hj
    rcases hsound.registered j ch _ hjreg with hstored | ⟨topic, packet, hread, -⟩
    · -- the registration of the other send has been overwritten
      rw [hreg] at hstored
      have hch := (GoMap.store_self _ _ _).symm.trans hstored
      refine hfresh.held j ?_
      rw [hsenders, hheld, Option.some.inj hch]
    · rw [hreg] at hread
      have hsame : w.obtainChannel.1.readers = w.readers := by
        rw [obtainChannel]
        cases w.availableChannels.getLast? <;> rfl
      exact (h.reading topic ch packet (hsame ▸ hread)).2 _ hwait
  · intro hfree
    exact (h.register hi now fun _ => hfree).sound

/-- In every state of a run whose sends register under identifiers of their own, the waiters
are sound. -/
theorem run_waitersSound (privateTopic groupID contentEncoding msgType : String)
    (useOriginalContent : Bool) {es : List Event} {w : KafkaWorker}
    (hown : Throughout (step c) OwnIdentifier ((newKafkaWorker privateTopic groupID).configured
      contentEncoding msgType useOriginalContent) es)
    (hrun : run (step c) ((newKafkaWorker privateTopic groupID).configured contentEncoding msgType
      useOriginalContent) es = some w) : w.WaitersSound :=
  (hown.invariant (fun _ _ _ h hg hv => step_consistent h hg hv)
    (consistent_new privateTopic groupID contentEncoding msgType useOriginalContent) hrun).sound

def demoRequest (correlationID : String) : SendRequest :=
  { topic := "demo", publishMsg := { correlationID }, needReply := true }

def demoReply : KafkaPacket := { sendTo := "rpc", correlationId := "1" }

/-- A send opens and subscribes to the private topic, and its reply comes back there. -/
theorem run_waitersSound_answered :
    ∃ w, run (step (tableCodec [demoReply])) ((newKafkaWorker "rpc" "").configured "" "" false)
        [.call 0 (demoRequest "1"), .opened 0, .register 0 0, .send 0,
          .read "rpc" (wirePacket demoReply) none 0, .handOver "rpc" 0, .recycle 0] = some w ∧
      w.WaitersSound ∧ w.senders 0 = .returned (demoRequest "1")
        (some (convertKafkaPacketToMQConsumerMessage demoReply)) := by
  have hown : Throughout (step (tableCodec [demoReply])) OwnIdentifier
      ((newKafkaWorker "rpc" "").configured "" "" false) [.call 0 (demoRequest "1"), .opened 0,
        .register 0 0, .send 0, .read "rpc" (wirePacket demoReply) none 0, .handOver "rpc" 0,
        .recycle 0] :=
    .cons trivial rfl (.cons trivial rfl (.cons (fun _ => rfl) rfl (.cons trivial rfl
      (.cons trivial rfl (.cons trivial rfl (.cons trivial rfl trivial))))))
  exact ⟨_, rfl, run_waitersSound "rpc" "" "" "" false hown rfl, rfl⟩

/-- Two sends without an identifier: the second takes the registration of the first. -/
theorem run_not_waitersSound :
    ∃ w, run (step (tableCodec [])) ((newKafkaWorker "" "").configured "" "" false)
        [.call 0 (demoRequest ""), .call 1 (demoRequest ""), .register 0 0, .register 1 0] = some w ∧
      ¬ w.WaitersSound := by
  refine ⟨_, rfl, fun h => ?_⟩
  rcases h.registered 0 0 "" rfl with hwait | ⟨topic, packet, hread, -⟩
  · have hch : some 1 = some 0 := hwait
    cases hch
  · cases hread

end KafkaWorker
end Gocom
