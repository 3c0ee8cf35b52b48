import Gocom.HandlerExecution
import Mathlib.Data.List.Basic

/-!
# The outputs of a method

A method can return errors and messages beside what is answered, and what is answered may not be
serialized. The loop over the outputs keeps, of each kind of result, the one that is set last; an
error that it has met is reported only if no message is left and no body can be sent.
-/

namespace Gocom

/-! ## What is set last -/

section LastSet

variable {α β : Type*}

/-- What the last element that sets something sets it to. -/
def lastSet (f : α → Option β) (xs : List α) : Option β := (xs.filterMap f).getLast?

theorem lastSet_cons (f : α → Option β) (x : α) (xs : List α) :
    lastSet f (x :: xs) = (lastSet f xs).or (f x) := by
  rw [lastSet, lastSet, List.filterMap_cons]
  cases f x with
  | none => rw [Option.or_none]
  | some b =>
    dsimp only
    rw [List.getLast?_cons]
    cases (xs.filterMap f).getLast? <;> rfl

theorem lastSet_eq_some {f : α → Option β} {xs : List α} {b : β} (h : lastSet f xs = some b) :
    ∃ x ∈ xs, f x = some b :=
  List.mem_filterMap.mp (List.mem_of_getLast? h)

end LastSet

namespace MqHandler

variable {σ π : Type*} (s : Serializers π)

/-! ## The kinds of outputs -/

/-- An output parameter with its type. -/
abbrev Output (π : Type*) := ParamTypeWrapper × OutParam π

inductive OutputKind where
  | message
  | error
  | serializable
  | data

def outputKind (ow : ParamTypeWrapper) : OutputKind :=
  if ow.isMQParameter then .message
  else if ow.isErrorStatus ∨ ow.isError then .error
  else if ow.isSerializable ∧ ow.hasStatusCode then .serializable
  else .data

/-- The message of an output, or nil for a pointer to none. -/
def setsMessage (out : Output π) : Option (Option MQPublishMessage) :=
  match outputKind out.1, out.2 with
  | .message, .message (some m) => some (some m)
  | .message, _ => if out.1.isPtr then some none else none
  | _, _ => none

def setsStatus (out : Output π) : Option (Option HandlerError) :=
  match outputKind out.1, out.2 with
  | .error, .handlerError e =>
    some (some (if out.1.isErrorStatus then e else ⟨ResultCode.innerError.toInt, e.message⟩))
  | .error, .error message => some (some ⟨ResultCode.innerError.toInt, message⟩)
  | .error, .nil => none
  | .error, _ => if out.1.isErrorStatus then some none else none
  | _, _ => none

def setsSerializer (out : Output π) : Option (Option String) :=
  match outputKind out.1 with
  | .data => some (if s.getSerializer out.1.serializingType then some out.1.serializingType else none)
  | _ => none

/-- An output with a status code of its own is answered as it is. -/
def setsObject (out : Output π) : Option (SerializeObj π) :=
  match outputKind out.1 with
  | .data =>
    if s.getSerializer out.1.serializingType ∧ out.1.hasStatusCode then some (.param out.2) else none
  | _ => none

def setsData (out : Output π) : Option (Option π) :=
  match outputKind out.1 with
  | .data =>
    if s.getSerializer out.1.serializingType ∧ ¬ out.1.hasStatusCode then
      some (match out.2 with
        | .value v => some v
        | _ => none)
    else none
  | _ => none

def setsPayload (out : Output π) : Option (Option Bytes) :=
  match outputKind out.1 with
  | .serializable => (s.serializable out.2).map Prod.fst
  | _ => none

/-- A message output that is no message, a value that cannot be serialized or is with an error, and
one without a serializer. A value that is serialized sets the error to nil. -/
def setsError (out : Output π) : Option (Option String) :=
  match outputKind out.1, out.2 with
  | .message, .message (some _) => none
  | .message, _ => some (some ("Consider the response as " ++ out.1.typeName ++ " failed"))
  | .error, _ => none
  | .serializable, v => match s.serializable v with
    | some (_, err) => some err
    | none => some (some (out.1.typeName ++ " were not serializable"))
  | .data, _ =>
    if s.getSerializer out.1.serializingType then none
    else some (some ("Get serializer for response " ++ out.1.typeName ++
      " by serializing type:" ++ out.1.serializingType ++ " not found"))

/-! ## What is left of the outputs -/

/-- What one output changes of what has been collected. -/
structure Sets (out : Output π) (o o' : Outputs π) : Prop where
  message : o'.pubMsg = (setsMessage out).getD o.pubMsg
  status : o'.errStatus = (setsStatus out).getD o.errStatus
  serializer : o'.serializer = (setsSerializer s out).getD o.serializer
  object : o'.serializeObj = (setsObject s out).or o.serializeObj
  data : o'.data = (setsData s out).getD o.data
  payload : o'.payload = (setsPayload s out).getD o.payload

variable {s}

/-- An output, by its kind. -/
theorem collectOutput_eq (o : Outputs π) (ow : ParamTypeWrapper) (v : OutParam π) :
    collectOutput s o ow v = match outputKind ow with
      | .message =>
        match assertMessage ow o.pubMsg v with
        | some m => { o with pubMsg := some m }
        | none => { o with
            pubMsg := none
            err := some ("Consider the response as " ++ ow.typeName ++ " failed") }
      | .error => { o with errStatus := assertError ow o.errStatus v }
      | .serializable =>
        match s.serializable v with
        | some (payload, err) => { o with payload, err }
        | none => { o with err := some (ow.typeName ++ " were not serializable") }
      | .data =>
        if s.getSerializer ow.serializingType then
          if ow.hasStatusCode then
            { o with serializer := some ow.serializingType, serializeObj := some (.param v) }
          else
            { o with
              serializer := some ow.serializingType
              data := match v with
                | .value v => some v
                | _ => none }
        else
          { o with
            serializer := none
            err := some ("Get serializer for response " ++ ow.typeName ++
              " by serializing type:" ++ ow.serializingType ++ " not found") } := by
  unfold collectOutput outputKind
  split_ifs <;> rfl

theorem assertMessage_eq (ow : ParamTypeWrapper) (h : outputKind ow = .message) (old : Option MQPublishMessage)
    (v : OutParam π) : assertMessage ow old v = (setsMessage (ow, v)).getD old := by
  rw [setsMessage]
  simp only [h]
  cases v with
  | message m => cases m <;> cases hptr : ow.isPtr <;> simp [assertMessage, hptr]
  | nil | handlerError e | error message | value v =>
    cases hptr : ow.isPtr <;> simp [assertMessage, hptr]

theorem assertError_eq (ow : ParamTypeWrapper) (h : outputKind ow = .error) (old : Option HandlerError)
    (v : OutParam π) : assertError ow old v = (setsStatus (ow, v)).getD old := by
  rw [setsStatus]
  simp only [h]
  cases v <;> cases hstatus : ow.isErrorStatus <;> simp [assertError, hstatus]

theorem collectOutput_sets (o : Outputs π) (ow : ParamTypeWrapper) (v : OutParam π) :
    Sets s (ow, v) o (collectOutput s o ow v) := by
  rw [collectOutput_eq]
  cases hkind : outputKind ow with
  | message =>
    have hmessage := assertMessage_eq ow hkind o.pubMsg v
    dsimp only
    cases hleft : assertMessage ow o.pubMsg v <;> rw [hleft] at hmessage <;> constructor <;>
      simp [setsStatus, setsSerializer, setsObject, setsData, setsPayload, hkind, hmessage]
  | error =>
    have hstatus := assertError_eq ow hkind o.errStatus v
    constructor <;> simp [setsMessage, setsSerializer, setsObject, setsData, setsPayload, hkind, hstatus]
  | serializable =>
    dsimp only
    cases hresult : s.serializable v <;> constructor <;>
      simp [setsMessage, setsStatus, setsSerializer, setsObject, setsData, setsPayload, hkind, hresult]
  | data =>
    dsimp only
    split_ifs <;> constructor <;>
      simp [setsMessage, setsStatus, setsSerializer, setsObject, setsData, setsPayload, *]

/-- The error is that of the output, unless there is a message now. -/
theorem collectOutput_error {o : Outputs π} {err : Option String} (h : o.pubMsg.isSome = true ∨ o.err = err)
    (ow : ParamTypeWrapper) (v : OutParam π) :
    (collectOutput s o ow v).pubMsg.isSome = true ∨
      (collectOutput s o ow v).err = (setsError s (ow, v)).getD err := by
  rw [collectOutput_eq]
  cases hkind : outputKind ow with
  | message =>
    have hmessage := assertMessage_eq ow hkind o.pubMsg v
    dsimp only
    cases hleft : assertMessage ow o.pubMsg v with
    | some m => exact .inl rfl
    | none =>
      refine .inr ?_
      rw [hleft, setsMessage, hkind] at hmessage
      rw [setsError, hkind]
      cases v with
      | message m =>
        cases m with
        | none => rfl
        | some m => cases hmessage
      | nil | handlerError e | error message | value v => rfl
  | error =>
    refine h.imp_right fun herr => ?_
    rw [setsError, hkind]
    exact herr
  | serializable =>
    refine h.imp (fun hmessage => ?_) fun herr => ?_
    · dsimp only
      cases s.serializable v <;> exact hmessage
    · rw [setsError, hkind]
      dsimp only
      cases s.serializable v <;> rfl
  | data =>
    refine h.imp (fun hmessage => ?_) fun herr => ?_
    · dsimp only
      split_ifs <;> exact hmessage
    · rw [setsError, hkind]
      dsimp only
      split_ifs <;> first | exact herr | rfl

variable (s)

/-- What the loop over the outputs leaves. -/
def collected (outs : List (Output π)) (o : Outputs π) : Outputs π :=
  outs.foldl (fun o p => collectOutput s o p.1 p.2) o

/-- The loop keeps what is set last. -/
structure Keeps (outs : List (Output π)) (o o' : Outputs π) : Prop where
  message : o'.pubMsg = (lastSet setsMessage outs).getD o.pubMsg
  status : o'.errStatus = (lastSet setsStatus outs).getD o.errStatus
  serializer : o'.serializer = (lastSet (setsSerializer s) outs).getD o.serializer
  object : o'.serializeObj = (lastSet (setsObject s) outs).or o.serializeObj
  data : o'.data = (lastSet (setsData s) outs).getD o.data
  payload : o'.payload = (lastSet (setsPayload s) outs).getD o.payload

variable {s}

theorem collected_keeps (outs : List (Output π)) (o : Outputs π) : Keeps s outs o (collected s outs o) := by
  induction outs generalizing o with
  | nil => exact ⟨rfl, rfl, rfl, rfl, rfl, rfl⟩
  | cons out outs ih =>
    have hfirst : Sets s out o (collectOutput s o out.1 out.2) := collectOutput_sets o out.1 out.2
    have hrest := ih (collectOutput s o out.1 out.2)
    have hcollected : collected s (out :: outs) o = collected s outs (collectOutput s o out.1 out.2) := rfl
    rw [hcollected]
    refine ⟨?_, ?_, ?_, ?_, ?_, ?_⟩
    · rw [lastSet_cons, Option.getD_or, ← hfirst.message, hrest.message]
    · rw [lastSet_cons, Option.getD_or, ← hfirst.status, hrest.status]
    · rw [lastSet_cons, Option.getD_or, ← hfirst.serializer, hrest.serializer]
    · rw [lastSet_cons, Option.or_assoc, ← hfirst.object, hrest.object]
    · rw [lastSet_cons, Option.getD_or, ← hfirst.data, hrest.data]
    · rw [lastSet_cons, Option.getD_or, ← hfirst.payload, hrest.payload]

/-- Where no message is left, the error is the one that is set last. -/
theorem collected_error (outs : List (Output π)) {o : Outputs π} {err : Option String}
    (h : o.pubMsg.isSome = true ∨ o.err = err) :
    (collected s outs o).pubMsg.isSome = true ∨
      (collected s outs o).err = (lastSet (setsError s) outs).getD err := by
  induction outs generalizing o err with
  | nil => exact h
  | cons out outs ih =>
    rw [lastSet_cons, Option.getD_or]
    exact ih (collectOutput_error h out.1 out.2)

/-! ## Errors -/

variable (s)

/-- The message that is answered. A pointer to none takes back one of an earlier output. -/
def messageLeft (outs : List (Output π)) : Option MQPublishMessage := (lastSet setsMessage outs).join

def statusLeft (outs : List (Output π)) : Option HandlerError := (lastSet setsStatus outs).join

def errorLeft (outs : List (Output π)) : Option String := (lastSet (setsError s) outs).join

/-- What is answered where no message is left, with the error of its serializer. -/
def answer (msg : MQConsumerMessage) (outs : List (Output π)) : Option Bytes × Option String :=
  match (lastSet (setsSerializer s) outs).join, lastSet (setsObject s) outs with
  | none, _ => ((lastSet (setsPayload s) outs).join, errorLeft s outs)
  | some name, some obj => s.serialize name obj
  | some name, none =>
    s.serialize name (.result (withStatus
      { code := ResultCode.success.toInt, message := "Success",
        data := (lastSet (setsData s) outs).join, requestSn := msg.messageID }
      (statusLeft outs) (errorLeft s outs)))

/-- The method has returned an error here, or the output is none that can be answered. -/
def InError (out : Output π) : Prop :=
  (∃ status, setsStatus out = some (some status)) ∨ ∃ err, setsError s out = some (some err)

/-- An output is in error, or what is answered in place of a message cannot be serialized. -/
def Produced (msg : MQConsumerMessage) (outs : List (Output π)) : Prop :=
  (∃ out ∈ outs, InError s out) ∨ messageLeft outs = none ∧ (answer s msg outs).2.isSome = true

/-- No message is left, and there is an error output that is not nil, or no body but an error. -/
def Reported (msg : MQConsumerMessage) (outs : List (Output π)) : Prop :=
  messageLeft outs = none ∧ ((statusLeft outs).isSome = true ∨
    (answer s msg outs).1 = none ∧ (answer s msg outs).2.isSome = true)

variable {s}

theorem Reported.produced {msg : MQConsumerMessage} {outs : List (Output π)} (h : Reported s msg outs) :
    Produced s msg outs := by
  obtain ⟨hmessage, hstatus | ⟨-, herr⟩⟩ := h
  · obtain ⟨status, hleft⟩ := Option.isSome_iff_exists.mp hstatus
    obtain ⟨out, hout, hsets⟩ := lastSet_eq_some (Option.join_eq_some_iff.mp hleft)
    exact .inl ⟨out, hout, .inl ⟨status, hsets⟩⟩
  · exact .inr ⟨hmessage, herr⟩

theorem getD_none_eq_join {α : Type*} (a : Option (Option α)) : a.getD none = a.join := by cases a <;> rfl

theorem collected_pubMsg (outs : List (Output π)) : (collected s outs {}).pubMsg = messageLeft outs := by
  rw [(collected_keeps outs {}).message, getD_none_eq_join, messageLeft]

/-- All that the loop leaves, if it is no message. -/
theorem collected_eq {outs : List (Output π)} (h : messageLeft outs = none) : collected s outs {} =
    { pubMsg := none
      err := errorLeft s outs
      errStatus := statusLeft outs
      serializer := (lastSet (setsSerializer s) outs).join
      serializeObj := lastSet (setsObject s) outs
      payload := (lastSet (setsPayload s) outs).join
      data := (lastSet (setsData s) outs).join } := by
  have hmessage := (collected_pubMsg (s := s) outs).trans h
  have hkeeps := collected_keeps (s := s) outs {}
  have herror : (collected s outs {}).err = (lastSet (setsError s) outs).getD none := by
    rcases collected_error outs (.inr rfl) with hsome | herror
    · rw [hmessage] at hsome
      cases hsome
    · exact herror
  have hstatus := hkeeps.status
  have hserializer := hkeeps.serializer
  have hobject := hkeeps.object
  have hdata := hkeeps.data
  have hpayload := hkeeps.payload
  rw [getD_none_eq_join] at herror hstatus hserializer hdata hpayload
  rw [Option.or_none] at hobject
  cases hcollected : collected s outs {}
  rw [hcollected] at hmessage herror hstatus hserializer hobject hdata hpayload
  subst hmessage herror hstatus hserializer hobject hdata hpayload
  rfl

/-- What keeps the observers from seeing the events is an error that is reported. -/
theorem reported_iff (h : MqHandler σ π) (msg : MQConsumerMessage) (outParams : List (OutParam π)) :
    Reported s msg (h.outTypes.zip outParams) ↔ (parseCallOutputs s h msg outParams).2.isSome = true := by
  have hfold : (h.outTypes.zip outParams).foldl (fun o p => collectOutput s o p.1 p.2) {} =
      collected s (h.outTypes.zip outParams) {} := rfl
  rw [parseCallOutputs, hfold]
  generalize h.outTypes.zip outParams = outs
  cases hmessage : messageLeft outs with
  | some m =>
    simp only [collected_pubMsg, hmessage]
    exact iff_of_false (fun hreported => by cases hmessage.symm.trans hreported.1) Bool.false_ne_true
  | none =>
    rw [collected_eq hmessage, Reported, answer, and_iff_right hmessage]
    dsimp only
    cases (lastSet (setsSerializer s) outs).join with
    | none =>
      dsimp only
      cases (lastSet (setsPayload s) outs).join <;> simp
    | some name =>
      cases lastSet (setsObject s) outs with
      | some obj =>
        dsimp only
        cases (s.serialize name obj).1 <;> simp
      | none =>
        dsimp only
        generalize s.serialize name _ = result
        cases result.1 <;> simp

end MqHandler
end Gocom
