import Gocom.GoStrings

/-!
# Packets

What a worker writes to a topic and reads from one. The two encodings of packets and the
reading of a method name out of a body belong to other packages and are parameters.
-/

namespace Gocom

structure KafkaPacket where
  contentType : String := ""
  contentEncoding : String := ""
  sendTo : String := ""
  groupId : String := ""
  correlationId : String := ""
  replyTo : String := ""
  messageId : String := ""
  timestamp : ℕ := 0
  type : String := ""
  userId : String := ""
  appId : String := ""
  statusCode : ℕ := 0
  errorMessage : String := ""
  headers : Headers := []
  body : Bytes := []
  routingKey : String := ""
  consumerTag : String := ""
  exchange : String := ""
  deriving DecidableEq

/-- The `method` and `routingKey` members of a body. -/
structure RoutingParams where
  method : String := ""
  routingKey : String := ""

/-- Marshalling returns the bytes it has made so far along with an error. -/
structure PacketCodec where
  jsonMarshal : KafkaPacket → Bytes × Option String
  protoMarshal : KafkaPacket → Bytes × Option String
  jsonUnmarshal : Bytes → Except String KafkaPacket
  protoUnmarshal : Bytes → Except String KafkaPacket
  routingParams : Bytes → Except String RoutingParams

namespace PacketCodec

def marshal (c : PacketCodec) (useOriginalContent : Bool) (p : KafkaPacket) : Bytes × Option String :=
  if useOriginalContent then c.jsonMarshal p else c.protoMarshal p

def unmarshal (c : PacketCodec) (useOriginalContent : Bool) (data : Bytes) :
    Except String KafkaPacket :=
  if useOriginalContent then c.jsonUnmarshal data else c.protoUnmarshal data

/-- Take the routing key from the body of a packet that has none. -/
def extractRoutingKey (c : PacketCodec) (packet : KafkaPacket) : KafkaPacket :=
  if packet.routingKey ≠ "" then packet
  else
    match c.routingParams packet.body with
    | .error _ => packet
    | .ok params =>
      if params.method ≠ "" then { packet with routingKey := params.method }
      else if params.routingKey ≠ "" then { packet with routingKey := params.routingKey }
      else packet

end PacketCodec

def convertKafkaPacketToMQConsumerMessage (packet : KafkaPacket) : MQConsumerMessage :=
  { driver := "kafka", queue := packet.sendTo, correlationID := packet.correlationId,
    consumerTag := packet.consumerTag, replyTo := packet.replyTo, messageID := packet.messageId,
    appID := packet.appId, userID := packet.userId, contentType := packet.contentType,
    exchange := packet.exchange, routingKey := packet.routingKey, timestamp := packet.timestamp,
    body := packet.body, headers := packet.headers.foldl (fun h p => h.set p.1 p.2) [] }

/-- What opens a topic that may not exist yet. -/
def registerValue : Bytes := asciiBytes "\x7b'_register_private': 'open'\x7d"

/-- Data that is taken for such an opening is not a packet. -/
def RegistersPrivate (data : Bytes) : Prop := Contains data (asciiBytes "_register_private")

instance (data : Bytes) : Decidable (RegistersPrivate data) := inferInstanceAs (Decidable (Contains _ _))

example : RegistersPrivate registerValue := by decide

/-! ## The wire format -/

def varint : ℕ → ℕ → Bytes
  | 0, _ => []
  | fuel + 1, n =>
    if n < 128 then [UInt8.ofNat n] else UInt8.ofNat (n % 128 + 128) :: varint fuel (n / 128)

def wireNumber (field n : ℕ) : Bytes :=
  if n = 0 then [] else varint 10 (8 * field) ++ varint 10 n

def wireBytes (field : ℕ) (b : Bytes) : Bytes := varint 10 (8 * field + 2) ++ varint 10 b.length ++ b

def wireText (field : ℕ) (s : String) : Bytes := if s = "" then [] else wireBytes field (asciiBytes s)

/-- The wire format of a packet with ASCII texts. -/
def wirePacket (p : KafkaPacket) : Bytes :=
  wireText 1 p.contentType ++ wireText 2 p.contentEncoding ++ wireText 3 p.sendTo ++
  wireText 4 p.groupId ++ wireText 5 p.correlationId ++ wireText 6 p.replyTo ++
  wireText 7 p.messageId ++ wireNumber 8 p.timestamp ++ wireText 9 p.type ++ wireText 10 p.userId ++
  wireText 11 p.appId ++ wireNumber 12 p.statusCode ++ wireText 13 p.errorMessage ++
  p.headers.flatMap (fun h => wireBytes 14 (wireText 1 h.1 ++ wireText 2 h.2)) ++
  (if p.body = [] then [] else wireBytes 15 p.body) ++ wireText 16 p.routingKey ++
  wireText 17 p.consumerTag ++ wireText 18 p.exchange

/-- A codec that reads the packets of a table. -/
def tableCodec (packets : List KafkaPacket) : PacketCodec where
  jsonMarshal _ := ([], some "json: unsupported type")
  protoMarshal p := (wirePacket p, none)
  jsonUnmarshal _ := .error "invalid character"
  protoUnmarshal data :=
    match packets.find? (wirePacket · = data) with
    | none => .error "cannot parse invalid wire-format data"
    | some p => .ok p
  routingParams _ := .error "unexpected end of JSON input"

end Gocom
