import Gocom.HeaderMaps

/-!
# The properties of a Pulsar message

The fields of a message and its headers share one map of properties. A field is written under its
own name, over a header of that name, unless it is empty; the reader finds its fields there and
takes the whole map for the headers. The routing key is read but not written.
-/

namespace Gocom
namespace PulsarMQ

def propertyCorrelationID : String := "CorrelationId"
def propertyReplyTo : String := "ReplyTo"
def propertyMessageID : String := "MessageId"
def propertyAppID : String := "AppId"
def propertyUserID : String := "UserId"
def propertyContentType : String := "ContentType"

def setProperty (properties : Headers) (name value : String) : Headers :=
  if "" ≠ value then properties.set name value else properties

def preparePublishMessageProperties (properties : Headers) (pm : MQPublishMessage) : Headers :=
  let properties := pm.headers.foldl (fun h p => h.set p.1 p.2) properties
  let properties := setProperty properties propertyAppID pm.appID
  let properties := setProperty properties propertyUserID pm.userID
  let properties := setProperty properties propertyMessageID pm.messageID
  let properties := setProperty properties propertyCorrelationID pm.correlationID
  let properties := setProperty properties propertyReplyTo pm.replyTo
  setProperty properties propertyContentType pm.contentType

/-- A missing property reads empty. -/
def property (properties : Headers) (name : String) : String :=
  ((Headers.toMap properties) name).getD ""

/-- `pulsar.Message`. -/
structure Message where
  topic : String := ""
  publishTime : ℤ := 0
  payload : Bytes := []
  properties : Headers := []

/-- What `handleConsumeCallback` makes of a message for the callback. -/
def consumerMessage (driver consumerTag : String) (msg : Message) : MQConsumerMessage :=
  { driver, queue := msg.topic, timestamp := msg.publishTime, body := msg.payload,
    headers := msg.properties, consumerTag,
    correlationID := property msg.properties propertyCorrelationID,
    replyTo := property msg.properties propertyReplyTo,
    messageID := property msg.properties propertyMessageID,
    appID := property msg.properties propertyAppID,
    userID := property msg.properties propertyUserID,
    contentType := property msg.properties propertyContentType,
    routingKey := property msg.properties "RoutingKey" }

/-- The part of `publish` that makes the message, and its delivery. -/
def publishedMessage (topic : String) (publishTime : ℤ) (pm : MQPublishMessage) : Message :=
  { topic, publishTime, payload := pm.body, properties := preparePublishMessageProperties [] pm }

/-- The fields of a message by the names they are read under. -/
def protocolFields (pm : MQPublishMessage) : List (String × String) :=
  [(propertyAppID, pm.appID), (propertyUserID, pm.userID), (propertyMessageID, pm.messageID),
    (propertyCorrelationID, pm.correlationID), (propertyReplyTo, pm.replyTo),
    (propertyContentType, pm.contentType), ("RoutingKey", pm.routingKey)]

/-- The consumer's message has the fields and the headers of the published one. -/
structure Carries (pm : MQPublishMessage) (m : MQConsumerMessage) : Prop where
  appID : m.appID = pm.appID
  userID : m.userID = pm.userID
  messageID : m.messageID = pm.messageID
  correlationID : m.correlationID = pm.correlationID
  replyTo : m.replyTo = pm.replyTo
  contentType : m.contentType = pm.contentType
  routingKey : m.routingKey = pm.routingKey
  headers : Headers.toMap m.headers = Headers.toMap pm.headers

theorem property_congr {properties h : Headers} (hmap : Headers.toMap properties = Headers.toMap h)
    (name : String) : property properties name = property h name := by
  rw [property, property, hmap]

/-- A property that is there already is not changed by writing it. -/
theorem toMap_setProperty {properties h : Headers}
    (hmap : Headers.toMap properties = Headers.toMap h) {name value : String}
    (hvalue : property h name = value) :
    Headers.toMap (setProperty properties name value) = Headers.toMap h := by
  rw [setProperty]
  split_ifs with hempty
  · rw [Headers.toMap_set, hmap]
    funext a
    rw [GoMap.store_apply]
    split_ifs with ha
    · rw [property] at hvalue
      cases hlookup : Headers.toMap h name with
      | none =>
        rw [hlookup] at hvalue
        exact absurd hvalue hempty
      | some found =>
        rw [hlookup] at hvalue
        rw [ha, hlookup]
        exact congrArg some hvalue.symm
    · rfl
  · exact hmap

/-- Where the headers have the fields already, only the headers are transmitted. -/
theorem preparePublishMessageProperties_map {pm : MQPublishMessage}
    (h : ∀ p ∈ protocolFields pm, property pm.headers p.1 = p.2) :
    Headers.toMap (preparePublishMessageProperties [] pm) = Headers.toMap pm.headers := by
  simp only [protocolFields, List.forall_mem_cons] at h
  obtain ⟨happ, huser, hmessage, hcorrelation, hreply, htype, -⟩ := h
  have hcopied := Headers.toMap_copy pm.headers
  have hafterApp := toMap_setProperty hcopied happ
  have hafterUser := toMap_setProperty hafterApp huser
  have hafterMessage := toMap_setProperty hafterUser hmessage
  have hafterCorrelation := toMap_setProperty hafterMessage hcorrelation
  have hafterReply := toMap_setProperty hafterCorrelation hreply
  exact toMap_setProperty hafterReply htype

/-- A message comes through just when its headers under the seven names are its fields, where a
missing header is an empty one. -/
theorem consumerMessage_carries_iff (driver consumerTag topic : String) (publishTime : ℤ)
    (pm : MQPublishMessage) :
    Carries pm (consumerMessage driver consumerTag (publishedMessage topic publishTime pm)) ↔
      ∀ p ∈ protocolFields pm, property pm.headers p.1 = p.2 := by
  constructor
  · intro h
    have hsame := property_congr h.headers
    simp only [protocolFields, List.forall_mem_cons]
    refine ⟨?_, ?_, ?_, ?_, ?_, ?_, ?_, fun p hp => absurd hp List.not_mem_nil⟩
    · exact (hsame _).symm.trans h.appID
    · exact (hsame _).symm.trans h.userID
    · exact (hsame _).symm.trans h.messageID
    · exact (hsame _).symm.trans h.correlationID
    · exact (hsame _).symm.trans h.replyTo
    · exact (hsame _).symm.trans h.contentType
    · exact (hsame _).symm.trans h.routingKey
  · intro h
    have hmap := preparePublishMessageProperties_map h
    have hsame := property_congr hmap
    simp only [protocolFields, List.forall_mem_cons] at h
    obtain ⟨happ, huser, hmessage, hcorrelation, hreply, htype, hrouting, -⟩ := h
    exact ⟨(hsame _).trans happ, (hsame _).trans huser, (hsame _).trans hmessage,
      (hsame _).trans hcorrelation, (hsame _).trans hreply, (hsame _).trans htype,
      (hsame _).trans hrouting, hmap⟩

/-! ## What comes through in any case -/

theorem setProperty_apply (properties : Headers) (name value a : String) :
    Headers.toMap (setProperty properties name value) a =
      if "" ≠ value ∧ a = name then some value else Headers.toMap properties a := by
  rw [setProperty]
  by_cases hvalue : "" = value
  · rw [if_neg (not_not.mpr hvalue), if_neg (fun h => h.1 hvalue)]
  · rw [if_pos hvalue, Headers.toMap_set, GoMap.store_apply]
    by_cases ha : a = name
    · rw [if_pos ha, if_pos ⟨hvalue, ha⟩]
    · rw [if_neg ha, if_neg (fun h => ha h.2)]

/-- One field is written after the other. -/
def writeFields (properties : Headers) (fields : List (String × String)) : Headers :=
  fields.foldl (fun h p => setProperty h p.1 p.2) properties

theorem writeFields_other {fields : List (String × String)} {a : String}
    (ha : ∀ p ∈ fields, a ≠ p.1) (properties : Headers) :
    Headers.toMap (writeFields properties fields) a = Headers.toMap properties a := by
  induction fields generalizing properties with
  | nil => rfl
  | cons p fields ih =>
    obtain ⟨hp, hfields⟩ := List.forall_mem_cons.mp ha
    have hstep := ih hfields (setProperty properties p.1 p.2)
    rw [setProperty_apply, if_neg (fun h => hp h.2)] at hstep
    exact hstep

theorem writeFields_field {fields : List (String × String)}
    (hnames : (fields.map Prod.fst).Nodup) {p : String × String} (hp : p ∈ fields)
    {properties : Headers} (hempty : property properties p.1 = "") :
    property (writeFields properties fields) p.1 = p.2 := by
  induction fields generalizing properties with
  | nil => exact absurd hp List.not_mem_nil
  | cons q fields ih =>
    obtain ⟨hfresh, hrest⟩ := List.nodup_cons.mp hnames
    obtain rfl | hp := List.mem_cons.mp hp
    · have hother : ∀ r ∈ fields, p.1 ≠ r.1 := fun r hr h => hfresh (h ▸ List.mem_map_of_mem hr)
      have hlater := writeFields_other hother (setProperty properties p.1 p.2)
      change property (writeFields (setProperty properties p.1 p.2) fields) p.1 = p.2
      rw [property, hlater, setProperty_apply]
      by_cases hvalue : "" = p.2
      · rw [if_neg (fun h => h.1 hvalue), ← hvalue]
        exact hempty
      · rw [if_pos ⟨hvalue, rfl⟩]
        rfl
    · refine ih hrest hp ?_
      have hne : p.1 ≠ q.1 := fun h => hfresh (h ▸ List.mem_map_of_mem hp)
      rw [property, setProperty_apply, if_neg (fun h => hne h.2)]
      exact hempty

/-- Where no header has the name of a field, the written fields come through; the headers of other
names always do. -/
theorem consumerMessage_fields (driver consumerTag topic : String) (publishTime : ℤ)
    (pm : MQPublishMessage) :
    let m := consumerMessage driver consumerTag (publishedMessage topic publishTime pm)
    (∀ p ∈ (protocolFields pm).dropLast, property pm.headers p.1 = "" →
      property m.headers p.1 = p.2) ∧
      ∀ a, (∀ p ∈ (protocolFields pm).dropLast, a ≠ p.1) →
        Headers.toMap m.headers a = Headers.toMap pm.headers a := by
  have hcopied := Headers.toMap_copy pm.headers
  have hnames : ((protocolFields pm).dropLast.map Prod.fst).Nodup := by
    change [propertyAppID, propertyUserID, propertyMessageID, propertyCorrelationID,
      propertyReplyTo, propertyContentType].Nodup
    decide
  refine ⟨fun p hp hempty => ?_, fun a ha => ?_⟩
  · exact writeFields_field hnames hp ((property_congr hcopied p.1).trans hempty)
  · exact (writeFields_other ha _).trans (congrFun hcopied a)

/-- A message with an application, a routing key and one header loses its routing key and gains a
header. -/
theorem routedMessage_altered :
    ¬ Carries { appID := "app", routingKey := "orders", headers := [("Lang", "en")] }
      (consumerMessage "pulsar" "" (publishedMessage "orders" 0
        { appID := "app", routingKey := "orders", headers := [("Lang", "en")] })) :=
  fun h => absurd h.routingKey (by decide)

end PulsarMQ
end Gocom
