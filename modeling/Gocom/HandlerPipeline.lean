import Gocom.FilterGate
import Gocom.HandlerOutputs

/-!
# The pipeline of a handler

A message whose inputs parse is shown, one event per payload, to the visitors, given to the
delegates or the method, and shown to the observers. The error of the inputs is that of the last
payload alone, a delegate behind the first is executed twice, and the observers are kept from the events
only by an error of the method that is reported.
-/

namespace Gocom

namespace Act

/-- Each of the addresses once for each of the `n` events from `i` on. -/
def forEvents (act : ℕ → ℕ → Act) (addresses : List ℕ) (i n : ℕ) : List Act :=
  (List.range' i n).flatMap fun event => addresses.map fun address => act address event

theorem forEvents_succ (act : ℕ → ℕ → Act) (addresses : List ℕ) (i n : ℕ) :
    forEvents act addresses i (n + 1) =
      (addresses.map fun address => act address i) ++ forEvents act addresses (i + 1) n := rfl

end Act

namespace MqHandler

variable {σ π : Type*}

/-! ## The phases -/

/-- Beside the filters, every visitor sees every event. -/
theorem preExecute_visits (h : MqHandler σ π) {i : ℕ} {evs evs' : List (Event π)} {w u : σ}
    {acts : List Act} (hp : preExecute h i evs w = (u, acts, .passed evs')) :
    acts.filter (fun a => !a.isFilter) = Act.forEvents .visit
        ((h.controller.visitors h.name).map Watcher.address) i evs.length ∧
      evs'.length = evs.length := by
  induction evs generalizing i w u acts evs' with
  | nil =>
    rw [preExecute] at hp
    cases hp
    exact ⟨rfl, rfl⟩
  | cons ev evs ih =>
    rcases preExecute_cons h i ev evs w with
      ⟨v, filtered, -, hr⟩ | ⟨w', ev', w'', rest, outcome, hrest, hr⟩
    · rw [hr] at hp
      cases hp
    · rw [hr] at hp
      cases outcome with
      | rejected err => cases hp
      | passed evs'' =>
        cases hp
        obtain ⟨hvisits, hlen⟩ := ih hrest
        refine ⟨?_, by rw [List.length_cons, List.length_cons, hlen]⟩
        have hfilters : (h.controller.filters.addresses.map fun a => Act.filter a i true).filter
            (fun a => !a.isFilter) = [] := List.filter_eq_nil_iff.mpr (by simp [Act.isFilter])
        have hkept : ((h.controller.visitors h.name).map fun v => Act.visit v.address i).filter
            (fun a => !a.isFilter) = (h.controller.visitors h.name).map fun v => .visit v.address i :=
          List.filter_eq_self.mpr (by simp [Act.isFilter])
        rw [List.length_cons, Act.forEvents_succ, List.filter_append, List.filter_append, hvisits,
          hfilters, hkept, List.nil_append, List.map_map]
        rfl

theorem postExecute_cons (h : MqHandler σ π) (i : ℕ) (ev : Event π) (evs : List (Event π)) (w : σ) :
    (postExecute h i (ev :: evs) w).2 =
      (watchAll .observe i (h.controller.observers h.name) w ev).2.2 ++
        (postExecute h (i + 1) evs (watchAll .observe i (h.controller.observers h.name) w ev).1).2 :=
  rfl

theorem postExecute_observes (h : MqHandler σ π) (i : ℕ) (evs : List (Event π)) (w : σ) :
    (postExecute h i evs w).2 = Act.forEvents .observe
      ((h.controller.observers h.name).map Watcher.address) i evs.length := by
  induction evs generalizing i w with
  | nil => rfl
  | cons ev evs ih =>
    rw [postExecute_cons, ih, watchAll_acts, List.length_cons, Act.forEvents_succ, List.map_map]
    rfl

/-- The acts of the delegates from position `i` on. -/
theorem runDelegates_executes (i : ℕ) (ds : List (Delegate σ π)) (w : σ) (ev : Event π)
    (resp : Option MQPublishMessage) :
    (runDelegates i ds w ev resp).2.1 = (ds.zipIdx i).flatMap fun p =>
      if p.2 > 0 then [.spawnDelegate p.1.address, .delegate p.1.address]
      else [.delegate p.1.address] := by
  induction ds generalizing i w ev resp with
  | nil => rfl
  | cons d ds ih => rw [runDelegates, List.zipIdx_cons, List.flatMap_cons, ← ih]

/-- A delegate behind the first is started a second time. -/
theorem runDelegates_eq_iff (ds : List (Delegate σ π)) (w : σ) (ev : Event π)
    (resp : Option MQPublishMessage) :
    (runDelegates 0 ds w ev resp).2.1 = ds.map (fun d => .delegate d.address) ↔ ds.length ≤ 1 := by
  rw [runDelegates_executes]
  cases ds with
  | nil => simp
  | cons d ds =>
    cases ds with
    | nil => simp
    | cons d' ds => simp [List.zipIdx_cons]

/-! ## The whole -/

variable (s : Serializers π)

/-- What runs the handler: the delegates, or the method where there are none. -/
def runs (h : MqHandler σ π) : List Act :=
  if h.controller.delegates h.name = [] then [.call]
  else (h.controller.delegates h.name).map fun d => .delegate d.address

/-- The number of payload arguments. -/
def payloads (h : MqHandler σ π) : ℕ := h.inTypes.countP fun iw => !iw.isMQParameter

/-- What the method returns. -/
def outputs (h : MqHandler σ π) (inParams : List (InParam π)) (w : σ) : List (Output π) :=
  h.outTypes.zip (h.caller w inParams).2

/-- Only the method can fail; what a delegate answers is no error. -/
def Fails (h : MqHandler σ π) (msg : MQConsumerMessage) (inParams : List (InParam π)) (w : σ) :
    Prop :=
  h.controller.delegates h.name = [] ∧ Produced s msg (h.outputs inParams w)

def visits (h : MqHandler σ π) (n : ℕ) : List Act :=
  Act.forEvents .visit ((h.controller.visitors h.name).map Watcher.address) 0 n

def observes (h : MqHandler σ π) (n : ℕ) : List Act :=
  Act.forEvents .observe ((h.controller.observers h.name).map Watcher.address) 0 n

/-- Beside the filters, a message with `n` events makes each visitor see each event, then each
delegate or the method run once, then, unless there is an error, each observer see each event. -/
structure Pipeline (h : MqHandler σ π) (n : ℕ) (failed : Prop) (trace : List Act) : Prop where
  failing : failed → trace.filter (fun a => !a.isFilter) = visits h n ++ runs h
  passing : ¬ failed → trace.filter (fun a => !a.isFilter) = visits h n ++ runs h ++ observes h n

/-- The method is called, and the observers see the events unless an error is reported. -/
theorem doExecute_of_method {h : MqHandler σ π} (hd : h.controller.delegates h.name = [])
    (msg : MQConsumerMessage) (inParams : List (InParam π)) (evs : List (Event π)) (w : σ) :
    (Reported s msg (h.outputs inParams w) → (doExecute s h msg inParams evs w).trace = [.call]) ∧
    (¬ Reported s msg (h.outputs inParams w) →
      (doExecute s h msg inParams evs w).trace = .call :: observes h evs.length) := by
  have hreported := reported_iff (s := s) h msg (h.caller w inParams).2
  rw [doExecute, hd, outputs, hreported]
  dsimp only
  cases (parseCallOutputs s h msg (h.caller w inParams).2).2 with
  | some e => exact ⟨fun _ => rfl, fun hno => absurd rfl hno⟩
  | none =>
    exact ⟨fun hno => absurd hno Bool.false_ne_true,
      fun _ => congrArg (Act.call :: ·) (postExecute_observes h 0 evs _)⟩

theorem doExecute_of_delegates {h : MqHandler σ π} (hd : h.controller.delegates h.name ≠ [])
    (msg : MQConsumerMessage) (inParams : List (InParam π)) (evs : List (Event π)) (w : σ) :
    ∃ ev, (doExecute s h msg inParams evs w).trace =
      (runDelegates 0 (h.controller.delegates h.name) w ev none).2.1 ++ observes h evs.length := by
  rw [doExecute]
  cases hdelegates : h.controller.delegates h.name with
  | nil => exact absurd hdelegates hd
  | cons d ds =>
    refine ⟨evs.head?.getD (createEventFromConsumerMessage s h.group h.name msg), ?_⟩
    dsimp only
    rw [postExecute_observes]
    congr 2
    cases evs <;> rfl

theorem payloadEvents_length (h : MqHandler σ π) (msg : MQConsumerMessage) :
    (payloadEvents s h msg (formatInputs s msg h.inTypes none).1).length = h.payloads := by
  have hlength : ∀ inTypes err, (payloadEvents s h msg (formatInputs s msg inTypes err).1).length =
      inTypes.countP fun iw => !iw.isMQParameter := by
    intro inTypes err
    induction inTypes generalizing err with
    | nil => rfl
    | cons iw inTypes ih =>
      rw [formatInputs, List.countP_cons]
      cases iw.isMQParameter with
      | true => exact ih err
      | false => exact congrArg (· + 1) (ih _)
  exact hlength h.inTypes none

theorem observes_eq_nil_iff {h : MqHandler σ π} {n : ℕ} :
    observes h n = [] ↔ h.controller.observers h.name = [] ∨ n = 0 := by
  rw [observes, Act.forEvents, List.flatMap_eq_nil_iff]
  cases n with
  | zero => simp
  | succ n => simpa [List.range'_succ] using fun hnone _ _ _ => hnone

theorem filter_not_isFilter {acts : List Act} (h : ∀ a ∈ acts, a.isFilter = false) :
    acts.filter (fun a => !a.isFilter) = acts :=
  List.filter_eq_self.mpr fun a ha => by rw [h a ha]; rfl

/-- The trace of a message that parses and passes the filters. -/
theorem execute_of_passed {h : MqHandler σ π} {msg : MQConsumerMessage} {w u : σ}
    {inParams : List (InParam π)} {pre : List Act} {evs : List (Event π)}
    (hin : formatInputs s msg h.inTypes none = (inParams, none))
    (hpass : preExecute h 0 (payloadEvents s h msg inParams) w = (u, pre, .passed evs)) :
    (execute s h msg w).trace.filter (fun a => !a.isFilter) =
      visits h h.payloads ++ (doExecute s h msg inParams evs u).trace ∧ evs.length = h.payloads := by
  obtain ⟨hvisits, hlen⟩ := preExecute_visits h hpass
  have hpayloads : (payloadEvents s h msg inParams).length = h.payloads := by
    rw [← payloadEvents_length s h msg, hin]
  have hexec : (execute s h msg w).trace = pre ++ (doExecute s h msg inParams evs u).trace := by
    simp only [execute, hin, hpass]
  obtain ⟨a, rest, htrace, ha, hrest⟩ := doExecute_trace s h msg inParams evs u
  have hcalls : ∀ b ∈ (doExecute s h msg inParams evs u).trace, b.isFilter = false := by
    rw [htrace]
    intro b hb
    rcases List.mem_cons.mp hb with rfl | hb
    · cases b <;> simp_all [Act.isFilter, Act.runsHandler]
    · exact hrest b hb
  rw [hexec, List.filter_append, hvisits, filter_not_isFilter hcalls, hpayloads]
  exact ⟨rfl, hlen.trans hpayloads⟩

/-- The pipeline runs as it should exactly for handlers with at most one delegate, and where there is
none if an error that the outputs produce is reported, or no observer could see an event. -/
theorem execute_pipeline_iff (h : MqHandler σ π) (msg : MQConsumerMessage) {w u : σ}
    {inParams : List (InParam π)} {pre : List Act} {evs : List (Event π)}
    (hin : formatInputs s msg h.inTypes none = (inParams, none))
    (hpass : preExecute h 0 (payloadEvents s h msg inParams) w = (u, pre, .passed evs)) :
    Pipeline h h.payloads (Fails s h msg inParams u) (execute s h msg w).trace ↔
      (h.controller.delegates h.name).length ≤ 1 ∧
        (h.controller.delegates h.name = [] → Produced s msg (h.outputs inParams u) →
          Reported s msg (h.outputs inParams u) ∨ h.controller.observers h.name = [] ∨ h.payloads = 0) := by
  obtain ⟨htrace, hlen⟩ := execute_of_passed s hin hpass
  by_cases hd : h.controller.delegates h.name = []
  · obtain ⟨hreported, hunreported⟩ := doExecute_of_method s hd msg inParams evs u
    have hruns : runs h = [.call] := if_pos hd
    have hone : (h.controller.delegates h.name).length ≤ 1 := hd ▸ Nat.zero_le 1
    have hfails : Fails s h msg inParams u ↔ Produced s msg (h.outputs inParams u) := and_iff_right hd
    rw [hlen] at hunreported
    rw [and_iff_right hone]
    by_cases hreport : Reported s msg (h.outputs inParams u)
    · refine iff_of_true ⟨fun _ => ?_, fun hno => absurd (hfails.mpr hreport.produced) hno⟩
        fun _ _ => .inl hreport
      rw [htrace, hreported hreport, hruns]
    · have hshown : (execute s h msg w).trace.filter (fun a => !a.isFilter) =
          visits h h.payloads ++ runs h ++ observes h h.payloads := by
        rw [htrace, hunreported hreport, hruns, List.append_assoc]
        rfl
      constructor
      · intro hp _ hproduced
        have hfailing := hp.failing (hfails.mpr hproduced)
        rw [hshown] at hfailing
        exact .inr (observes_eq_nil_iff.mp (List.append_right_eq_self.mp hfailing))
      · refine fun hcond => ⟨fun hf => ?_, fun _ => hshown⟩
        have hnothing := (hcond hd (hfails.mp hf)).resolve_left hreport
        rw [hshown, observes_eq_nil_iff.mpr hnothing, List.append_nil]
  · obtain ⟨ev, hdone⟩ := doExecute_of_delegates s hd msg inParams evs u
    have hno : ¬ Fails s h msg inParams u := fun hf => hd hf.1
    have hruns : runs h = (h.controller.delegates h.name).map fun d => .delegate d.address :=
      if_neg hd
    rw [and_iff_left fun hnone => absurd hnone hd,
      ← runDelegates_eq_iff (h.controller.delegates h.name) u ev none]
    constructor
    · intro hp
      have hpassing := hp.passing hno
      rw [htrace, hdone, hlen, hruns, ← List.append_assoc] at hpassing
      exact List.append_cancel_left (List.append_cancel_right hpassing)
    · refine fun heq => ⟨fun hf => absurd hf hno, fun _ => ?_⟩
      rw [htrace, hdone, hlen, hruns, heq, List.append_assoc]

/-- A handler of one payload that a visitor, two delegates and an observer are registered for. -/
def delegatedHandler : MqHandler Unit Unit where
  caller w _ := (w, [])
  inTypes := [{}]
  controller :=
    { filters := .chain none
      visitors := fun _ => [⟨0, fun w ev => (w, ev)⟩]
      delegates := fun _ => [⟨1, fun w ev => (w, ev, none)⟩, ⟨2, fun w ev => (w, ev, none)⟩]
      observers := fun _ => [⟨3, fun w ev => (w, ev)⟩] }

/-- The serializers of which each parses. -/
def parsingSerializers : Serializers Unit := { plainSerializers with getSerializer := fun _ => true }

def singleHandler : MqHandler Unit Unit :=
  { delegatedHandler with controller :=
    { delegatedHandler.controller with delegates := fun _ => [⟨1, fun w ev => (w, ev, none)⟩] } }

/-- A handler whose method returns an error. -/
def failingHandler : MqHandler Unit Unit :=
  { delegatedHandler with
    caller w _ := (w, [.error "failed"])
    outTypes := [{ isError := true }]
    controller := { delegatedHandler.controller with delegates := fun _ => [] } }

theorem execute_pipeline_single :
    Pipeline singleHandler 1 (Fails parsingSerializers singleHandler {} [.payload ()] ())
      (execute parsingSerializers singleHandler {} ()).trace ∧
    Pipeline failingHandler 1 (Fails parsingSerializers failingHandler {} [.payload ()] ())
      (execute parsingSerializers failingHandler {} ()).trace :=
  ⟨(execute_pipeline_iff parsingSerializers singleHandler {} (w := ()) rfl rfl).mpr
      ⟨Nat.le_refl 1, fun hnone => by cases hnone⟩,
    (execute_pipeline_iff parsingSerializers failingHandler {} (w := ()) rfl rfl).mpr
      ⟨Nat.zero_le 1, fun _ _ => .inl ⟨rfl, .inl rfl⟩⟩⟩

/-- A handler whose method returns a message and an error. -/
def answeringHandler : MqHandler Unit Unit :=
  { failingHandler with
    caller w _ := (w, [.message (some { body := [], exchange := "", routingKey := "" }), .error "failed"])
    outTypes := [{ isPtr := true, isMQParameter := true }, { isError := true }] }

/-- The second delegate is started twice, and the observer sees the event of a method that failed. -/
theorem delegatedHandler_not_pipeline :
    ¬ Pipeline delegatedHandler 1 (Fails parsingSerializers delegatedHandler {} [.payload ()] ())
      (execute parsingSerializers delegatedHandler {} ()).trace ∧
    ¬ Pipeline answeringHandler 1 (Fails parsingSerializers answeringHandler {} [.payload ()] ())
      (execute parsingSerializers answeringHandler {} ()).trace := by
  refine ⟨fun hp => ?_, fun hp => ?_⟩
  · have hno : ¬ Fails parsingSerializers delegatedHandler {} [.payload ()] () := fun hf => by
      cases hf.1
    exact absurd (hp.passing hno) (by decide)
  · have hfails : Fails parsingSerializers answeringHandler {} [.payload ()] () :=
      ⟨rfl, .inl ⟨_, List.mem_cons_of_mem _ List.mem_cons_self, .inl ⟨_, rfl⟩⟩⟩
    exact absurd (hp.failing hfails) (by decide)

/-! ## Inputs that do not parse -/

def lastPayload (inTypes : List ParamTypeWrapper) : Option ParamTypeWrapper :=
  (inTypes.filter fun iw => !iw.isMQParameter).getLast?

/-- The error of the loop is that of the last payload. -/
theorem formatInputs_err (msg : MQConsumerMessage) (inTypes : List ParamTypeWrapper)
    (err : Option String) : (formatInputs s msg inTypes err).2 =
      (lastPayload inTypes).elim err fun iw => (parsePayload s iw msg.body msg.contentType).2 := by
  induction inTypes generalizing err with
  | nil => rfl
  | cons iw inTypes ih =>
    rw [formatInputs]
    cases hmq : iw.isMQParameter with
    | true =>
      rw [if_pos rfl]
      simp [ih, lastPayload, hmq]
    | false =>
      rw [if_neg Bool.false_ne_true]
      dsimp only
      rw [ih]
      simp only [lastPayload, List.filter_cons, hmq, Bool.not_false, if_true, List.getLast?_cons]
      cases (inTypes.filter fun iw => !iw.isMQParameter).getLast? <;> rfl

/-- A payload argument that does not parse from the body. -/
def Unparsable (msg : MQConsumerMessage) (iw : ParamTypeWrapper) : Prop :=
  iw.isMQParameter = false ∧ (parsePayload s iw msg.body msg.contentType).2.isSome = true

/-- Nothing was called, and a sender that can be answered is told of an error. -/
structure Refused (msg : MQConsumerMessage) (done : Execution σ) : Prop where
  idle : ∀ a ∈ done.trace, a.runsHandler = false
  told : msg.replyTo ≠ "" → msg.correlationID ≠ "" → ∃ pm err, done.resp = some pm ∧
    Echoes msg pm ∧ pm.body = s.encode { newResultObjectWithRequestSn msg.messageID with
      code := ResultCode.innerError.toInt, message := err }

theorem lastPayload_mem {inTypes : List ParamTypeWrapper} {iw : ParamTypeWrapper}
    (h : lastPayload inTypes = some iw) : iw ∈ inTypes ∧ iw.isMQParameter = false := by
  have hmem := List.mem_filter.mp (List.mem_of_getLast? h)
  simpa using hmem

theorem execute_of_unparsable {h : MqHandler σ π} {msg : MQConsumerMessage} {iw : ParamTypeWrapper}
    (hlast : lastPayload h.inTypes = some iw) (hiw : Unparsable s msg iw) (w : σ) :
    Refused s msg (execute s h msg w) := by
  obtain ⟨err, herr⟩ := Option.isSome_iff_exists.mp hiw.2
  have hformat := formatInputs_err s msg h.inTypes none
  rw [hlast, Option.elim_some, herr] at hformat
  have hexec : execute s h msg w = ⟨w, [], postOnError s msg .innerError (some err)⟩ := by
    rw [execute]
    cases hin : formatInputs s msg h.inTypes none with
    | mk inParams err' =>
      rw [hin] at hformat
      obtain rfl : err' = some err := hformat
      rfl
  rw [hexec]
  refine ⟨by simp, fun hreply hcorrelation => ?_⟩
  obtain ⟨pm, hpm, hbody⟩ : ∃ pm, postOnError s msg .innerError (some err) = some pm ∧
      pm.body = s.encode { newResultObjectWithRequestSn msg.messageID with
        code := ResultCode.innerError.toInt, message := err } :=
    ⟨_, if_pos ⟨hreply.symm, hcorrelation.symm⟩, rfl⟩
  exact ⟨pm, err, hpm, postOnError_echoes s hpm, hbody⟩

theorem preExecute_of_no_filter {h : MqHandler σ π} (hf : h.controller.filters = .chain none)
    (i : ℕ) (evs : List (Event π)) (w : σ) :
    ∃ u pre evs', preExecute h i evs w = (u, pre, .passed evs') := by
  induction evs generalizing i w with
  | nil => exact ⟨w, [], [], rfl⟩
  | cons ev evs ih =>
    rw [preExecute, hf, Filter.filter]
    dsimp only
    obtain ⟨u, pre, evs', hp⟩ := ih (i + 1) (watchAll .visit i (h.controller.visitors h.name) w ev).1
    rw [if_neg (fun hno => by cases hno), hp]
    exact ⟨_, _, _, rfl⟩

/-- Without filters and delegates the method is called as soon as the loop leaves no error. -/
theorem call_mem_execute {h : MqHandler σ π} {msg : MQConsumerMessage} {w : σ}
    (hin : (formatInputs s msg h.inTypes none).2 = none)
    (hfilters : h.controller.filters = .chain none)
    (hdelegates : h.controller.delegates h.name = []) : .call ∈ (execute s h msg w).trace := by
  obtain ⟨u, pre, evs, hpass⟩ := preExecute_of_no_filter hfilters 0
    (payloadEvents s h msg (formatInputs s msg h.inTypes none).1) w
  have hformat : formatInputs s msg h.inTypes none =
      ((formatInputs s msg h.inTypes none).1, none) := Prod.ext rfl hin
  have htrace := (execute_of_passed s hformat hpass).1
  refine (List.mem_filter (p := fun a : Act => !a.isFilter).mp ?_).1
  rw [htrace]
  refine List.mem_append_right _ ?_
  obtain ⟨hreported, hunreported⟩ :=
    doExecute_of_method s hdelegates msg (formatInputs s msg h.inTypes none).1 evs u
  by_cases hreport : Reported s msg (h.outputs (formatInputs s msg h.inTypes none).1 u)
  · rw [hreported hreport]
    exact List.mem_cons_self
  · rw [hunreported hreport]
    exact List.mem_cons_self

/-- A signature keeps unparsable bodies from every handler exactly where the last payload is
unparsable, if any is. -/
theorem unparsable_refused_iff (h : MqHandler σ π) (msg : MQConsumerMessage) (w : σ) :
    ((∃ iw ∈ h.inTypes, Unparsable s msg iw) → ∀ caller controller,
        Refused s msg (execute s { h with caller, controller } msg w)) ↔
      (∀ iw ∈ h.inTypes, ¬ Unparsable s msg iw) ∨
        ∃ iw, lastPayload h.inTypes = some iw ∧ Unparsable s msg iw := by
  constructor
  · intro hgate
    by_contra hcond
    obtain ⟨hsome, hlast⟩ := not_or.mp hcond
    have hany : ∃ iw ∈ h.inTypes, Unparsable s msg iw := by simpa using hsome
    have hrefused := hgate hany (fun w _ => (w, [])) { filters := .chain none }
    have hnone : (formatInputs s msg h.inTypes none).2 = none := by
      rw [formatInputs_err]
      cases hl : lastPayload h.inTypes with
      | none => rfl
      | some iw =>
        by_contra hne
        exact hlast ⟨iw, hl, (lastPayload_mem hl).2, Option.isSome_iff_ne_none.mpr hne⟩
    have hcall := hrefused.idle _ (call_mem_execute s hnone rfl rfl)
    cases hcall
  · rintro (hnone | ⟨iw, hlast, hiw⟩) ⟨iw', hmem, hiw'⟩ caller controller
    · exact absurd hiw' (hnone iw' hmem)
    · exact execute_of_unparsable s (h := { h with caller, controller }) hlast hiw w

/-- A handler of two payloads, of two struct types. -/
def twoPayloads : MqHandler Unit Unit :=
  { delegatedHandler with
    inTypes := [{ typeName := "Order" }, { typeName := "Draft" }]
    controller := { filters := .chain none } }

/-- The body has a text where the first type has a number. -/
def draftSerializers : Serializers Unit :=
  { parsingSerializers with parseFrom := fun _ iw _ => ((), if iw.typeName = "Order" then
      some "json: cannot unmarshal string into Go struct field Order.id of type int" else none) }

/-- Its method is called. -/
theorem twoPayloads_not_refused :
    (∃ iw ∈ twoPayloads.inTypes, Unparsable draftSerializers {} iw) ∧
      ¬ Refused draftSerializers {} (execute draftSerializers twoPayloads {} ()) := by
  refine ⟨⟨_, List.mem_cons_self, rfl, rfl⟩, fun hr => ?_⟩
  cases hr.idle .call (by decide)

end MqHandler
end Gocom
