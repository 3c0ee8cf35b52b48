import Mathlib.Data.Int.Notation
import Mathlib.Data.Nat.Notation

/-!
# Message envelopes

The two message records shared by all drivers. A channel is the number it is known by; a
header map is the list of its pairs. Times are in seconds since the epoch.
-/

namespace Gocom

abbrev Bytes := List UInt8

abbrev Headers := List (String × String)

def Headers.set (h : Headers) (name value : String) : Headers :=
  h.filter (fun p => p.1 ≠ name) ++ [(name, value)]

structure MQConsumerMessage where
  driver : String := ""
  queue : String := ""
  correlationID : String := ""
  consumerTag : String := ""
  replyTo : String := ""
  messageID : String := ""
  appID : String := ""
  userID : String := ""
  contentType : String := ""
  exchange : String := ""
  routingKey : String := ""
  timestamp : ℤ := 0
  body : Bytes := []
  headers : Headers := []
  deriving DecidableEq

/-- A consumer; its callback is known by address. -/
structure MQConsumerProxy where
  queue : String := ""
  callback : Option ℕ := none
  consumerTag : String := ""
  deriving DecidableEq

structure MQPublishMessage where
  body : Bytes := []
  exchange : String := ""
  routingKey : String := ""
  correlationID : String := ""
  replyTo : String := ""
  messageID : String := ""
  appID : String := ""
  userID : String := ""
  contentType : String := ""
  publishStatus : Option ℕ := none
  eventLabel : String := ""
  headers : Headers := []
  response : Option ℕ := none
  timeoutSeconds : ℤ := 0
  callbackDisabled : Bool := false
  skipExchange : Bool := false
  deriving DecidableEq

inductive MQEventCode where
  | ok
  | failed
  | closed
  deriving DecidableEq

/-- What a publisher learns on its status channel. -/
structure MQEvent where
  code : MQEventCode
  label : String
  message : String
  deriving DecidableEq

namespace MQPublishMessage

def onClosed (m : MQPublishMessage) : MQPublishMessage := { m with callbackDisabled := true }

def callbackEnabled (m : MQPublishMessage) : Bool := false == m.callbackDisabled

/-- The application is first taken from the request and then overwritten with its message
identifier. -/
def newMQResponseMessage (body : Bytes) (cm : Option MQConsumerMessage) : MQPublishMessage :=
  match cm with
  | none => { body }
  | some cm =>
    { body, routingKey := cm.replyTo, correlationID := cm.correlationID, replyTo := cm.replyTo,
      messageID := cm.messageID, appID := cm.messageID, userID := cm.userID,
      contentType := cm.contentType, headers := cm.headers }

end MQPublishMessage

def MQConsumerMessage.newConsumerMessageFromPublishMessage (pm : MQPublishMessage) (now : ℤ) :
    MQConsumerMessage :=
  { driver := "mock", correlationID := pm.correlationID, replyTo := pm.replyTo,
    messageID := pm.messageID, appID := pm.appID, userID := pm.userID,
    contentType := pm.contentType, exchange := pm.exchange, routingKey := pm.routingKey,
    timestamp := now, body := pm.body, headers := pm.headers }

end Gocom
