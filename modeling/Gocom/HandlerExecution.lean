import Gocom.MessageEnvelopes
import Mathlib.Tactic.TypeStar

/-!
# Execution of a message handler

A handler turns its message into the arguments of a controller method, shows an event per
payload argument to the controller's filters and visitors, calls the method or the delegates
in its place, formats what the call returned and shows the events to the observers.

Filters, visitors, delegates, observers and the method are user code: functions on a world
`σ` that may change the event they are given. A payload is an opaque value `π`; what a payload
pointer points to belongs to the world. Every call of user code is recorded in a trace.
-/

namespace Gocom

/-! ## Events -/

/-- The payload of an event: a parsed argument, or the body when no argument was parsed. -/
inductive EventPayload (π : Type*) where
  | parsed (v : π)
  | body (b : Bytes)

structure Event (π : Type*) where
  identifier : String := ""
  status : Int := 0
  description : String := ""
  category : String := ""
  source : String := ""
  appID : String := ""
  userID : String := ""
  replyTo : String := ""
  correlationID : String := ""
  headers : Headers := []
  payload : EventPayload π
  originBody : Bytes := []

/-- The kinds of result a handler answers with. -/
inductive ResultCode where
  | success
  | forbidden
  | innerError
  | other (code : Int)
  deriving DecidableEq

def ResultCode.toInt : ResultCode → Int
  | .success => 0
  | .forbidden => 403
  | .innerError => 500
  | .other code => code

structure HandlerError where
  statusCode : Int
  message : String
  deriving DecidableEq

/-! The status codes that controllers answer. -/

namespace Results

def innerError : Int := 500

def dataNotExists : Int := 705

def nothingToDo : Int := 706

def notEmptyReferences : Int := 707

def invalidInput : Int := 1101

end Results

structure ResultObject (π : Type*) where
  code : Int
  message : String
  data : Option π := none
  requestSn : String

/-- The dynamic value of an output parameter. A message is a pointer, nil or not, or a value. -/
inductive OutParam (π : Type*) where
  | nil
  | message (m : Option MQPublishMessage)
  | handlerError (e : HandlerError)
  | error (message : String)
  | value (v : π)

/-- What is given to a serializer: an output parameter or the result object around it. -/
inductive SerializeObj (π : Type*) where
  | param (v : OutParam π)
  | result (r : ResultObject π)

structure ParamTypeWrapper where
  typeName : String := ""
  isPtr : Bool := false
  isMQParameter : Bool := false
  isSerializable : Bool := false
  hasStatusCode : Bool := false
  isErrorStatus : Bool := false
  isError : Bool := false
  serializingType : String := "json"
  deriving DecidableEq

/-- The serializers. A parse yields a value beside its error; `serializable` is `none` for a
value that cannot serialize itself. -/
structure Serializers (π : Type*) where
  getSerializer : String → Bool
  parseFrom : String → ParamTypeWrapper → Bytes → π × Option String
  parseSerializable : ParamTypeWrapper → Bytes → π × Option String
  emptyValue : ParamTypeWrapper → π
  serialize : String → SerializeObj π → Option Bytes × Option String
  serializable : OutParam π → Option (Option Bytes × Option String)
  encode : ResultObject π → Bytes
  toLower : String → String

/-! ## User code -/

/-- One call of user code. Filters, visitors, delegates and observers are known by address,
events by their position among the events of the message. -/
inductive Act where
  | filter (address event : ℕ) (accepted : Bool)
  | visit (address event : ℕ)
  | delegate (address : ℕ)
  | spawnDelegate (address : ℕ)
  | call
  | observe (address event : ℕ)
  deriving DecidableEq

/-- The answer of a filter, with the world and the event it leaves. -/
structure Verdict (σ π : Type*) where
  world : σ
  event : Event π
  ok : Bool
  err : Option String

/-- A filter, or a chain of filters; the chain of a controller may be nil. -/
inductive Filter (σ π : Type*) where
  | single (address : ℕ) (run : σ → Event π → Verdict σ π)
  | chain (filters : Option (List (Filter σ π)))

structure Watcher (σ π : Type*) where
  address : ℕ
  run : σ → Event π → σ × Event π

structure Delegate (σ π : Type*) where
  address : ℕ
  execute : σ → Event π → σ × Event π × Option (Event π)

structure Controller (σ π : Type*) where
  filters : Filter σ π
  visitors : String → List (Watcher σ π) := fun _ => []
  delegates : String → List (Delegate σ π) := fun _ => []
  observers : String → List (Watcher σ π) := fun _ => []

/-- An argument of the method: the consumed message or a parsed payload. -/
inductive InParam (π : Type*) where
  | message (isPtr : Bool) (msg : MQConsumerMessage)
  | payload (v : π)

structure MqHandler (σ π : Type*) where
  name : String := ""
  group : String := ""
  routingKey : String := ""
  caller : σ → List (InParam π) → σ × List (OutParam π)
  inTypes : List ParamTypeWrapper := []
  outTypes : List ParamTypeWrapper := []
  controller : Controller σ π

/-! ## Filters -/

namespace Filter

variable {σ π : Type*}

mutual

/-- Run a filter on the event with the given position. -/
def filter (f : Filter σ π) (i : ℕ) (w : σ) (ev : Event π) : Verdict σ π × List Act :=
  match f with
  | .single address run =>
    let v := run w ev
    (v, [.filter address i v.ok])
  | .chain none => (⟨w, ev, true, none⟩, [])
  | .chain (some filters) => filterAll filters i ⟨w, ev, true, none⟩

/-- Run the filters of a chain in order until one rejects; the last answer is the answer. -/
def filterAll (filters : List (Filter σ π)) (i : ℕ) (last : Verdict σ π) :
    Verdict σ π × List Act :=
  match filters with
  | [] => (last, [])
  | f :: filters =>
    let (v, acts) := filter f i last.world last.event
    if v.ok = false then (v, acts)
    else
      let (v, rest) := filterAll filters i v
      (v, acts ++ rest)

end

mutual

/-- The addresses of the filters a filter consists of. -/
def addresses : Filter σ π → List ℕ
  | .single address _ => [address]
  | .chain none => []
  | .chain (some filters) => addressesAll filters

def addressesAll : List (Filter σ π) → List ℕ
  | [] => []
  | f :: filters => addresses f ++ addressesAll filters

end

end Filter

/-! ## Events of a message -/

section events

variable {π : Type*} (s : Serializers π)

/-- The event of a message; header names become lower case. -/
def createEventFromConsumerMessageAndPayload (category handleName : String)
    (msg : MQConsumerMessage) (payload : EventPayload π) : Event π :=
  { identifier := msg.messageID, category, source := handleName, appID := msg.appID,
    userID := msg.userID, correlationID := msg.correlationID, replyTo := msg.replyTo,
    headers := msg.headers.map fun (k, v) => (s.toLower k, v), payload, originBody := msg.body }

def createEventFromConsumerMessage (category handleName : String) (msg : MQConsumerMessage) :
    Event π :=
  createEventFromConsumerMessageAndPayload s category handleName msg (.body msg.body)

def createPublishMessageFromEventAndPayload (ev : Event π) (payload : Bytes) : MQPublishMessage :=
  { body := payload, exchange := "", routingKey := "", correlationID := ev.correlationID,
    replyTo := ev.replyTo, messageID := ev.identifier, appID := ev.appID, userID := ev.userID,
    contentType := "application/json", headers := ev.headers }

end events

namespace MqHandler

variable {σ π : Type*} (s : Serializers π)

/-! ## Inputs -/

def parsePayload (w : ParamTypeWrapper) (payload : Bytes) (srcContentType : String) :
    π × Option String :=
  if w.isSerializable then s.parseSerializable w payload
  else
    let name := if "application/x-www-form-urlencoded" = srcContentType then
      "x-www-form-urlencoded" else w.serializingType
    if s.getSerializer name then s.parseFrom name w payload
    else (s.emptyValue w, some ("Unknown or unsupported serialization type:" ++ w.serializingType))

/-- The arguments for the input types, with the error of the last payload parsed. -/
def formatInputs (msg : MQConsumerMessage) :
    List ParamTypeWrapper → Option String → List (InParam π) × Option String
  | [], err => ([], err)
  | iw :: inTypes, err =>
    if iw.isMQParameter then
      let (inParams, err) := formatInputs msg inTypes err
      (.message iw.isPtr msg :: inParams, err)
    else
      let (v, err) := parsePayload s iw msg.body msg.contentType
      let (inParams, err) := formatInputs msg inTypes err
      (.payload v :: inParams, err)

/-- One event per payload argument. -/
def payloadEvents (h : MqHandler σ π) (msg : MQConsumerMessage) (inParams : List (InParam π)) :
    List (Event π) :=
  inParams.filterMap fun
    | .message _ _ => none
    | .payload v =>
      some (createEventFromConsumerMessageAndPayload s h.group h.name msg (.parsed v))

/-! ## Responses -/

def newResultObjectWithRequestSn (requestSn : String) : ResultObject π :=
  { code := -1, message := "Unknown.", requestSn }

/-- An error goes back only to a sender that can be answered. -/
def postOnError (msg : MQConsumerMessage) (status : ResultCode) (err : Option String) :
    Option MQPublishMessage :=
  match err with
  | none => none
  | some err =>
    if "" ≠ msg.replyTo ∧ "" ≠ msg.correlationID then
      let result : ResultObject π :=
        { newResultObjectWithRequestSn msg.messageID with code := status.toInt, message := err }
      some { body := s.encode result, exchange := msg.exchange, routingKey := msg.routingKey,
             correlationID := msg.correlationID, replyTo := msg.replyTo, messageID := msg.messageID,
             appID := msg.appID, userID := msg.userID, contentType := "application/json" }
    else none

/-- What the loop over the output parameters collects. -/
structure Outputs (π : Type*) where
  pubMsg : Option MQPublishMessage := none
  err : Option String := none
  errStatus : Option HandlerError := none
  serializer : Option String := none
  serializeObj : Option (SerializeObj π) := none
  payload : Option Bytes := none
  data : Option π := none

/-- The message an output parameter holds. A value that is no message leaves the message of
an earlier parameter in place, a pointer that is none replaces it by nil. -/
def assertMessage (ow : ParamTypeWrapper) (old : Option MQPublishMessage) :
    OutParam π → Option MQPublishMessage
  | .message m => if ow.isPtr then m else m.or old
  | _ => if ow.isPtr then none else old

/-- The error an output parameter of interface type holds. An error status keeps its code,
any other error is an inner error. -/
def assertError (ow : ParamTypeWrapper) (old : Option HandlerError) :
    OutParam π → Option HandlerError
  | .nil => old
  | .handlerError e => if ow.isErrorStatus then some e else some ⟨ResultCode.innerError.toInt, e.message⟩
  | .error message => some ⟨ResultCode.innerError.toInt, message⟩
  | _ => if ow.isErrorStatus then none else old

def collectOutput (o : Outputs π) (ow : ParamTypeWrapper) (outParam : OutParam π) : Outputs π :=
  if ow.isMQParameter then
    match assertMessage ow o.pubMsg outParam with
    | some m => { o with pubMsg := some m }
    | none => { o with pubMsg := none, err := some ("Consider the response as " ++ ow.typeName ++ " failed") }
  else if ow.isErrorStatus ∨ ow.isError then
    { o with errStatus := assertError ow o.errStatus outParam }
  else if ow.isSerializable ∧ ow.hasStatusCode then
    match s.serializable outParam with
    | some (payload, err) => { o with payload, err }
    | none => { o with err := some (ow.typeName ++ " were not serializable") }
  else if s.getSerializer ow.serializingType then
    if ow.hasStatusCode then
      { o with serializer := some ow.serializingType, serializeObj := some (.param outParam) }
    else
      { o with serializer := some ow.serializingType,
               data := match outParam with
                 | .value v => some v
                 | _ => none }
  else
    { o with serializer := none,
             err := some ("Get serializer for response " ++ ow.typeName ++
               " by serializing type:" ++ ow.serializingType ++ " not found") }

/-- Put the status a call ended with into the result object. -/
def withStatus (r : ResultObject π) (errStatus : Option HandlerError)
    (err : Option String) : ResultObject π :=
  match errStatus, err with
  | some e, _ => { r with code := e.statusCode, message := e.message }
  | none, some err => { r with code := ResultCode.innerError.toInt, message := err }
  | none, none => r

/-- The response to a call and the error status that keeps the observers from seeing it. The
error of the serializer replaces the error of the loop. -/
def parseCallOutputs (h : MqHandler σ π) (msg : MQConsumerMessage) (outParams : List (OutParam π)) :
    MQPublishMessage × Option HandlerError :=
  let o := (h.outTypes.zip outParams).foldl (fun o p => collectOutput s o p.1 p.2) {}
  match o.pubMsg with
  | some m => (m, none)
  | none =>
    let resObj : ResultObject π :=
      { code := ResultCode.success.toInt, message := "Success", data := o.data,
        requestSn := msg.messageID }
    let (resObj, payload, err) := match o.serializer, o.serializeObj with
      | none, _ => (resObj, o.payload, o.err)
      | some name, some obj => (resObj, s.serialize name obj)
      | some name, none =>
        let resObj := withStatus resObj o.errStatus o.err
        (resObj, s.serialize name (.result resObj))
    let respond (body : Bytes) : MQPublishMessage :=
      { exchange := msg.exchange, routingKey := msg.routingKey, replyTo := msg.replyTo,
        correlationID := msg.correlationID, messageID := msg.messageID, appID := msg.appID,
        userID := msg.userID, contentType := msg.contentType, body }
    match payload with
    | some body => (respond body, o.errStatus)
    | none =>
      (respond (s.encode (withStatus resObj o.errStatus err)),
        o.errStatus.or (err.map fun e => ⟨ResultCode.innerError.toInt, e⟩))

/-- The response keeps the address the message came with, and wants no reply itself. -/
structure Echoes (msg : MQConsumerMessage) (pm : MQPublishMessage) : Prop where
  exchange : pm.exchange = msg.exchange
  routingKey : pm.routingKey = msg.routingKey
  replyTo : pm.replyTo = msg.replyTo
  correlationID : pm.correlationID = msg.correlationID
  response : pm.response = none

theorem postOnError_echoes {msg : MQConsumerMessage} {status : ResultCode} {err : Option String}
    {pm : MQPublishMessage} (h : postOnError s msg status err = some pm) : Echoes msg pm := by
  cases err with
  | none => cases h
  | some err =>
    rw [postOnError] at h
    split at h
    · cases h
      exact ⟨rfl, rfl, rfl, rfl, rfl⟩
    · cases h

/-- Unless the method returned a message of its own. -/
theorem parseCallOutputs_echoes (h : MqHandler σ π) (msg : MQConsumerMessage)
    (outParams : List (OutParam π))
    (hown : ((h.outTypes.zip outParams).foldl (fun o p => collectOutput s o p.1 p.2) {}).pubMsg = none) :
    Echoes msg (parseCallOutputs s h msg outParams).1 := by
  rw [parseCallOutputs]
  generalize (h.outTypes.zip outParams).foldl (fun o p => collectOutput s o p.1 p.2) {} = o at hown ⊢
  simp only [hown]
  split <;> exact ⟨rfl, rfl, rfl, rfl, rfl⟩

/-! ## Execution -/

/-- Show the event to each watcher in turn. -/
def watchAll (act : ℕ → ℕ → Act) (i : ℕ) :
    List (Watcher σ π) → σ → Event π → σ × Event π × List Act
  | [], w, ev => (w, ev, [])
  | v :: vs, w, ev =>
    let (w, ev) := v.run w ev
    let (w, ev, acts) := watchAll act i vs w ev
    (w, ev, act v.address i :: acts)

/-- How the events came through filters and visitors. -/
inductive PreExecution (π : Type*) where
  | rejected (err : Option String)
  | passed (evs : List (Event π))

def preExecute (h : MqHandler σ π) : ℕ → List (Event π) → σ → σ × List Act × PreExecution π
  | _, [], w => (w, [], .passed [])
  | i, ev :: evs, w =>
    let (v, filtered) := h.controller.filters.filter i w ev
    if v.ok = false then (v.world, filtered, .rejected v.err)
    else
      let (w, ev, visited) := watchAll .visit i (h.controller.visitors h.name) v.world v.event
      match preExecute h (i + 1) evs w with
      | (w, rest, .rejected err) => (w, filtered ++ visited ++ rest, .rejected err)
      | (w, rest, .passed evs) => (w, filtered ++ visited ++ rest, .passed (ev :: evs))

/-- Execute the delegates in order; from the second one on a delegate is also started on its
own. The last result that is not nil makes the response. -/
def runDelegates : ℕ → List (Delegate σ π) → σ → Event π → Option MQPublishMessage →
    σ × List Act × Event π × Option MQPublishMessage
  | _, [], w, ev, resp => (w, [], ev, resp)
  | i, d :: ds, w, ev, resp =>
    let acts := if i > 0 then [.spawnDelegate d.address, .delegate d.address] else [.delegate d.address]
    let (w, ev, resEv) := d.execute w ev
    let (ev, resp) := match resEv with
      | some resEv => ({ ev with status := resEv.status, description := resEv.description },
          some (createPublishMessageFromEventAndPayload resEv resEv.originBody))
      | none => (ev, resp)
    let (w, rest, ev, resp) := runDelegates (i + 1) ds w ev resp
    (w, acts ++ rest, ev, resp)

def postExecute (h : MqHandler σ π) : ℕ → List (Event π) → σ → σ × List Act
  | _, [], w => (w, [])
  | i, ev :: evs, w =>
    let (w, _, acts) := watchAll .observe i (h.controller.observers h.name) w ev
    let (w, rest) := postExecute h (i + 1) evs w
    (w, acts ++ rest)

structure Execution (σ : Type*) where
  world : σ
  trace : List Act
  resp : Option MQPublishMessage

/-- Call the method or the delegates, then let the observers see the events. -/
def doExecute (h : MqHandler σ π) (msg : MQConsumerMessage) (inParams : List (InParam π))
    (evs : List (Event π)) (w : σ) : Execution σ :=
  match h.controller.delegates h.name with
  | [] =>
    let (w, outParams) := h.caller w inParams
    let (resp, err) := parseCallOutputs s h msg outParams
    match err with
    | some _ => ⟨w, [.call], some resp⟩
    | none =>
      let (w, post) := postExecute h 0 evs w
      ⟨w, .call :: post, some resp⟩
  | delegates =>
    let ev := evs.head?.getD (createEventFromConsumerMessage s h.group h.name msg)
    let (w, acts, ev, resp) := runDelegates 0 delegates w ev none
    -- the first event is the one the delegates were given
    let (w, post) := postExecute h 0 (if evs = [] then [] else ev :: evs.tail) w
    ⟨w, acts ++ post, resp⟩

def execute (h : MqHandler σ π) (msg : MQConsumerMessage) (w : σ) : Execution σ :=
  match formatInputs s msg h.inTypes none with
  | (_, some err) => ⟨w, [], postOnError s msg .innerError (some err)⟩
  | (inParams, none) =>
    match preExecute h 0 (payloadEvents s h msg inParams) w with
    | (w, pre, .rejected err) => ⟨w, pre, postOnError s msg .forbidden err⟩
    | (w, pre, .passed evs) =>
      let done := doExecute s h msg inParams evs w
      { done with trace := pre ++ done.trace }

/-- Without delegates, and unless the method returned a message of its own, whatever comes
back is addressed as the message was. -/
theorem execute_echoes {h : MqHandler σ π} {msg : MQConsumerMessage} {w : σ}
    {pm : MQPublishMessage} (hdelegates : h.controller.delegates h.name = [])
    (hown : ∀ w inParams, ((h.outTypes.zip (h.caller w inParams).2).foldl
      (fun o p => collectOutput s o p.1 p.2) {}).pubMsg = none)
    (hresp : (execute s h msg w).resp = some pm) : Echoes msg pm := by
  rw [execute] at hresp
  cases hinputs : formatInputs s msg h.inTypes none with
  | mk inParams err =>
    rw [hinputs] at hresp
    cases err with
    | some err =>
      dsimp only at hresp
      exact postOnError_echoes s hresp
    | none =>
      dsimp only at hresp
      cases hpre : preExecute h 0 (payloadEvents s h msg inParams) w with
      | mk w' rest =>
        obtain ⟨pre, passed⟩ := rest
        rw [hpre] at hresp
        cases passed with
        | rejected err =>
          dsimp only at hresp
          exact postOnError_echoes s hresp
        | passed evs =>
          simp only [doExecute, hdelegates] at hresp
          have hechoes := parseCallOutputs_echoes s h msg (h.caller w' inParams).2 (hown w' inParams)
          split at hresp <;> exact Option.some.inj hresp ▸ hechoes

end MqHandler
end Gocom
