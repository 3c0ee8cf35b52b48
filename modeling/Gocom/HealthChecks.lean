import Gocom.GoMaps
import Gocom.GuardedRuns
import Gocom.MessageEnvelopes
import Mathlib.Data.List.AList

/-!
# Health checks

A request for the health status starts all checks and collects their results until all are in or
two seconds have passed. Each producer writes its result as a text, and the response is an error
only if the text "failed" itself is among the last texts of the checks. Failed deliveries, timeouts
and HTTP errors are written in other words, and timeouts are pushed to nobody.
-/

namespace Gocom

structure LivenessCheckResult where
  name : String
  status : String
  message : String := ""

/-- What the producers of results have found. -/
inductive CheckOutcome where
  | ping (name : String) (err : Option String)
  | cacherSet (name : String) (stored : Bool)
  | noRoute (category : String)
  | published (category : String) (ms : String)
  | publishFailed (category : String) (err : String)
  | eventFailed (label : String) (message : String)
  | consumed (category : String)
  | timedOut (category : String)
  | httpGet (url : String) (resp : Except String String)
deriving DecidableEq

namespace CheckOutcome

/-- The result as it is pushed. -/
def result : CheckOutcome → LivenessCheckResult
  | ping name none => { name, status := "success" }
  | ping name (some err) => { name, status := "failed", message := err }
  | cacherSet name stored =>
    { name := "cacher-" ++ name, status := if stored then "success" else "failed" }
  | noRoute name =>
    { name, status := "none", message := "mq route config by " ++ name ++ " not exists" }
  | published name ms => { name, status := "none", message := "sending mq msg:" ++ ms }
  | publishFailed name err => { name, status := "failed", message := err }
  | eventFailed name message => { name, status := "failed - " ++ message }
  | consumed name => { name, status := "success" }
  | timedOut name => { name, status := "timeout" }
  | httpGet url (.error err) => { name := "healthz - " ++ url, status := err, message := err }
  | httpGet url (.ok resp) =>
    { name := "healthz - " ++ url, status := "success [" ++ resp ++ "]" }

/-- Whether the check has succeeded; a message that is under way says nothing yet. -/
def verdict : CheckOutcome → Option Bool
  | ping _ err => some err.isNone
  | cacherSet _ stored => some stored
  | noRoute _ | published _ _ => none
  | publishFailed _ _ | eventFailed _ _ | timedOut _ => some false
  | consumed _ => some true
  | httpGet _ resp => some resp.isOk

theorem success_ne_failed (resp : String) : "success [" ++ resp ++ "]" ≠ "failed" := by
  intro h
  have hhead := congrArg (fun text => text.toList.head?) h
  simp at hhead

/-- What is written as failed has failed. -/
theorem verdict_of_failed {o : CheckOutcome} (h : o.result.status = "failed") :
    o.verdict = some false := by
  cases o with
  | ping name err =>
    cases err with
    | none => exact absurd h (by simp [result])
    | some err => rfl
  | cacherSet name stored =>
    cases stored with
    | true => exact absurd h (by simp [result])
    | false => rfl
  | httpGet url resp =>
    cases resp with
    | ok resp => exact absurd h (success_ne_failed resp)
    | error err => rfl
  | noRoute | published | consumed => exact absurd h (by simp [result])
  | publishFailed | eventFailed | timedOut => rfl

end CheckOutcome

/-- What becomes of the message of a category. -/
inductive MQAttempt where
  | noRoute
  | published (key : String) (ms : String)
  | failed (key : String) (err : String)

/-- The result that is pushed at once, and the key the message carries. -/
def checkMQMessage (name : String) : MQAttempt → CheckOutcome × String
  | .noRoute => (.noRoute name, "")
  | .published key ms => (.published name ms, key)
  | .failed key err => (.publishFailed name err, key)

/-- What a request finds when it starts the checks, and what these will find. -/
structure HealthTargets where
  mqChecks : AList fun _ : String => MQAttempt := ∅
  mongoDBs : List (String × Option String) := []
  rdbms : Option (Option String) := none
  cachers : List (String × Bool) := []
  endpoints : List (String × Except String String) := []

inductive LoopPhase where
  | atTop
  | selecting
  | ended
deriving DecidableEq

/-- A request under way: the messages that wait for their consumer with their keys, the checks that
have no result yet, the results that wait to be received, and what has been received. Kept beside
is whether each check has succeeded last. -/
structure HealthCheck where
  categories : AList fun _ : String => String := ∅
  checkParts : List String := []
  pushed : List CheckOutcome := []
  checkResults : AList fun _ : String => String := ∅
  messages : List String := []
  stillChecking : Bool := true
  quitClosed : Bool := false
  phase : LoopPhase := .atTop
  latest : GoMap String Bool := .empty

namespace HealthCheck

inductive Event where
  | enter
  | tick
  | quit
  | receive (o : CheckOutcome)
  | mqEvent (ev : MQEvent)
  | consumer (key : String)

def notEmpty (s : HealthCheck) : Bool := !s.categories.entries.isEmpty

/-- The messages with a key wait for their consumer. -/
def checkConsumers (mqChecks : AList fun _ : String => MQAttempt) :
    AList fun _ : String => String :=
  mqChecks.entries.foldl (fun categories e =>
    let val := (checkMQMessage e.1 e.2).2
    if val ≠ "" then categories.insert e.1 val else categories) ∅

/-- The checks of databases, caches and endpoints. -/
def probes (c : HealthTargets) : List CheckOutcome :=
  c.mongoDBs.map (fun e => .ping ("mongo-" ++ e.1) e.2) ++ c.rdbms.toList.map (.ping "orm/rdbms") ++
    c.cachers.map (fun e => .cacherSet e.1 e.2) ++ c.endpoints.map (fun e => .httpGet e.1 e.2)

def start (c : HealthTargets) : HealthCheck :=
  let categories := checkConsumers c.mqChecks
  let checkParts := (probes c).map (·.result.name) ++ categories.keys
  { categories
    checkParts
    pushed := c.mqChecks.entries.map (fun e => (checkMQMessage e.1 e.2).1) ++ probes c
    stillChecking := !checkParts.isEmpty || !categories.entries.isEmpty }

def pushLivenessCheckEvent (s : HealthCheck) (o : CheckOutcome) : HealthCheck :=
  { s with pushed := s.pushed ++ [o] }

def setResult (s : HealthCheck) (name status : String) : HealthCheck :=
  { s with checkResults := s.checkResults.insert name status }

def setLatest (s : HealthCheck) (name : String) (verdict : Option Bool) : HealthCheck :=
  match verdict with
  | none => s
  | some succeeded => { s with latest := s.latest.store name succeeded }

/-- A message no longer waits for its consumer. -/
def remove (s : HealthCheck) (category : String) (o : CheckOutcome) : HealthCheck :=
  if (s.categories.lookup category).isSome then
    { s with categories := s.categories.erase category }.pushLivenessCheckEvent o
  else s

def removeBySerialNo (s : HealthCheck) (sn : String) : HealthCheck :=
  match s.categories.entries.find? fun e => sn = e.2 with
  | some e => s.remove e.1 (.consumed e.1)
  | none => s

/-- The messages that are still waiting have timed out. -/
def clear (s : HealthCheck) : HealthCheck :=
  s.categories.keys.foldl (fun s category =>
    (s.remove category (.timedOut category)).setLatest category (some false)) s

def onTrigger (s : HealthCheck) (o : CheckOutcome) : HealthCheck :=
  let trigger := o.result
  let messages := if trigger.message ≠ "" then s.messages ++ [trigger.message] else s.messages
  let s := ({ s with pushed := s.pushed.erase o, messages }.setResult trigger.name
    trigger.status).setLatest trigger.name o.verdict
  if trigger.status ≠ "none" then
    let checkParts := s.checkParts.filter (· ≠ trigger.name)
    { s with checkParts, stillChecking := !checkParts.isEmpty }
  else s

def onMQEvent (s : HealthCheck) (ev : MQEvent) : HealthCheck :=
  if ev.code = .ok then s.setResult ev.label "healthz message sent"
  else (s.pushLivenessCheckEvent (.eventFailed ev.label ev.message)).setLatest ev.label (some false)

/-- The condition and the first lines of the loop. -/
def enterLoop (s : HealthCheck) : HealthCheck :=
  if s.notEmpty || s.stillChecking then
    { s with
      stillChecking := if s.notEmpty then s.stillChecking else !s.checkParts.isEmpty
      phase := .selecting }
  else { s with phase := .ended }

/-- The loop selects one of what is ready; consumers run beside it. -/
def step (s : HealthCheck) : Event → Option HealthCheck
  | .enter => if s.phase = .atTop then some s.enterLoop else none
  | .tick =>
    if s.phase = .selecting ∧ s.quitClosed = false then
      some { s with quitClosed := true, phase := .atTop }
    else none
  | .quit =>
    if s.phase = .selecting ∧ s.quitClosed = true then
      some { s.clear with stillChecking := false, phase := .atTop }
    else none
  | .receive o =>
    if s.phase = .selecting ∧ o ∈ s.pushed then some { s.onTrigger o with phase := .atTop }
    else none
  | .mqEvent ev =>
    if s.phase = .selecting then some { s.onMQEvent ev with phase := .atTop } else none
  | .consumer key => some (s.removeBySerialNo key)

/-- The status of the response. -/
def statusCode (s : HealthCheck) : ℕ :=
  if s.checkResults.entries.any fun e => e.2 = "failed" then 500 else 200

/-! ## What is recorded -/

@[simp] theorem pushLivenessCheckEvent_checkResults (s : HealthCheck) (o : CheckOutcome) :
    (s.pushLivenessCheckEvent o).checkResults = s.checkResults := rfl

@[simp] theorem pushLivenessCheckEvent_latest (s : HealthCheck) (o : CheckOutcome) :
    (s.pushLivenessCheckEvent o).latest = s.latest := rfl

@[simp] theorem setLatest_checkResults (s : HealthCheck) (name : String) (verdict : Option Bool) :
    (s.setLatest name verdict).checkResults = s.checkResults := by
  cases verdict <;> rfl

@[simp] theorem setResult_latest (s : HealthCheck) (name status : String) :
    (s.setResult name status).latest = s.latest := rfl

theorem setLatest_self (s : HealthCheck) (name : String) (succeeded : Bool) :
    (s.setLatest name (some succeeded)).latest name = some succeeded := GoMap.store_self _ _ _

theorem setLatest_of_ne (s : HealthCheck) {name name' : String} (h : name' ≠ name)
    (verdict : Option Bool) : (s.setLatest name verdict).latest name' = s.latest name' := by
  cases verdict with
  | none => rfl
  | some succeeded => exact GoMap.store_of_ne h _ _

theorem remove_same (s : HealthCheck) (category : String) (o : CheckOutcome) :
    (s.remove category o).checkResults = s.checkResults ∧
      (s.remove category o).latest = s.latest := by
  rw [remove]
  split_ifs <;> exact ⟨rfl, rfl⟩

theorem removeBySerialNo_same (s : HealthCheck) (sn : String) :
    (s.removeBySerialNo sn).checkResults = s.checkResults ∧
      (s.removeBySerialNo sn).latest = s.latest := by
  rw [removeBySerialNo]
  cases s.categories.entries.find? fun e => sn = e.2 with
  | none => exact ⟨rfl, rfl⟩
  | some e => exact remove_same s e.1 _

/-- A timeout records nothing, and changes what holds of a check only to a failure. -/
theorem clear_same (s : HealthCheck) :
    s.clear.checkResults = s.checkResults ∧
      ∀ name, s.clear.latest name = s.latest name ∨ s.clear.latest name = some false := by
  rw [clear]
  generalize s.categories.keys = categories
  induction categories generalizing s with
  | nil => exact ⟨rfl, fun _ => .inl rfl⟩
  | cons category categories ih =>
    obtain ⟨hresults, hlatest⟩ := remove_same s category (.timedOut category)
    obtain ⟨ihresults, ihlatest⟩ :=
      ih ((s.remove category (.timedOut category)).setLatest category (some false))
    rw [List.foldl_cons]
    refine ⟨by rw [ihresults, setLatest_checkResults, hresults], fun name => ?_⟩
    obtain hkept | hfailed := ihlatest name
    · rw [hkept]
      by_cases hname : name = category
      · rw [hname]
        exact .inr (setLatest_self _ _ _)
      · rw [setLatest_of_ne _ hname, hlatest]
        exact .inl rfl
    · exact .inr hfailed

/-- A result that is received is recorded with its text and its verdict. -/
theorem onTrigger_same (s : HealthCheck) (o : CheckOutcome) :
    (s.onTrigger o).checkResults = s.checkResults.insert o.result.name o.result.status ∧
      (s.onTrigger o).latest = (s.setLatest o.result.name o.verdict).latest := by
  rw [onTrigger]
  dsimp only
  split_ifs <;> cases o.verdict <;> exact ⟨rfl, rfl⟩

/-- What an event does apart from the loop's own variables. -/
def effect (s : HealthCheck) : Event → HealthCheck
  | .enter | .tick => s
  | .quit => s.clear
  | .receive o => s.onTrigger o
  | .mqEvent ev => s.onMQEvent ev
  | .consumer key => s.removeBySerialNo key

/-- The inversion lemma of a step. -/
theorem step_effect {s t : HealthCheck} {e : Event} (ht : step s e = some t) :
    t.checkResults = (s.effect e).checkResults ∧ t.latest = (s.effect e).latest := by
  cases e with
  | enter =>
    rw [step] at ht
    split_ifs at ht
    obtain rfl := Option.some.inj ht
    rw [enterLoop]
    split_ifs <;> exact ⟨rfl, rfl⟩
  | tick | quit | receive | mqEvent =>
    rw [step] at ht
    split_ifs at ht
    obtain rfl := Option.some.inj ht
    exact ⟨rfl, rfl⟩
  | consumer key =>
    obtain rfl := Option.some.inj ht
    exact ⟨rfl, rfl⟩

/-- The texts that an event records. -/
def records : Event → List (String × String)
  | .receive o => [(o.result.name, o.result.status)]
  | .mqEvent ev => if ev.code = .ok then [(ev.label, "healthz message sent")] else []
  | _ => []

/-- The text recorded last for a check. -/
def lastText (events : List Event) (name : String) : Option String :=
  (events.flatMap records).reverse.lookup name

theorem lookup_insert_eq (results : AList fun _ : String => String) (name status name' : String) :
    (results.insert name status).lookup name' =
      ([(name, status)].lookup name').or (results.lookup name') := by
  by_cases h : name' = name
  · rw [h, AList.lookup_insert]
    simp
  · rw [AList.lookup_insert_ne h]
    simp [h]

/-- Each event records its texts over the texts before. -/
theorem step_checkResults {s t : HealthCheck} {e : Event} (ht : step s e = some t) (name : String) :
    t.checkResults.lookup name = ((records e).reverse.lookup name).or
      (s.checkResults.lookup name) := by
  rw [(step_effect ht).1]
  cases e with
  | enter | tick => rfl
  | quit => exact congrArg (AList.lookup name) s.clear_same.1
  | receive o =>
    exact (congrArg (AList.lookup name) (s.onTrigger_same o).1).trans (lookup_insert_eq _ _ _ _)
  | mqEvent ev =>
    rw [effect, onMQEvent, records]
    split_ifs
    · exact lookup_insert_eq _ _ _ _
    · rw [setLatest_checkResults]
      rfl
  | consumer key => exact congrArg (AList.lookup name) (s.removeBySerialNo_same key).1

theorem run_checkResults {s t : HealthCheck} {events : List Event}
    (hr : Runs.run step s events = some t) (name : String) :
    t.checkResults.lookup name = (lastText events name).or (s.checkResults.lookup name) := by
  have hguard : Runs.Throughout step (fun _ _ => True) s events :=
    Runs.throughout_of_forall fun _ _ _ => trivial
  refine hguard.compose (R := fun s texts t => ∀ name, t.checkResults.lookup name =
    (texts.reverse.lookup name).or (s.checkResults.lookup name)) records ?_ ?_ ?_ hr name
  · exact fun s name => rfl
  · intro s t u xs ys hst htu name
    rw [htu, hst, List.reverse_append, List.lookup_append, Option.or_assoc]
  · exact fun s e t _ ht => step_checkResults ht

/-! ## The status of the response -/

/-- The response is an error just if some check has failed last. -/
structure Truthful (s : HealthCheck) : Prop where
  error : (∃ name, s.latest name = some false) → s.statusCode = 500
  ok : (∀ name, s.latest name ≠ some false) → s.statusCode = 200

/-- A check whose last text is "failed" has failed last. -/
def FailedRight (s : HealthCheck) : Prop :=
  ∀ name, s.checkResults.lookup name = some "failed" → s.latest name = some false

theorem FailedRight.of_same {s t : HealthCheck} (h : FailedRight s)
    (hresults : t.checkResults = s.checkResults)
    (hlatest : ∀ name, t.latest name = s.latest name ∨ t.latest name = some false) :
    FailedRight t := by
  intro name hname
  rw [hresults] at hname
  exact (hlatest name).elim (fun hkept => hkept.trans (h name hname)) id

theorem FailedRight.onTrigger {s : HealthCheck} (h : FailedRight s) (o : CheckOutcome) :
    FailedRight (s.onTrigger o) := by
  obtain ⟨hresults, hlatest⟩ := s.onTrigger_same o
  intro name hname
  rw [hresults] at hname
  rw [hlatest]
  by_cases heq : name = o.result.name
  · rw [heq, AList.lookup_insert] at hname
    rw [heq, CheckOutcome.verdict_of_failed (Option.some.inj hname)]
    exact setLatest_self _ _ _
  · rw [AList.lookup_insert_ne heq] at hname
    rw [setLatest_of_ne _ heq]
    exact h name hname

theorem FailedRight.onMQEvent {s : HealthCheck} (h : FailedRight s) (ev : MQEvent) :
    FailedRight (s.onMQEvent ev) := by
  rw [HealthCheck.onMQEvent]
  split_ifs
  · intro name hname
    rw [setResult] at hname
    by_cases heq : name = ev.label
    · rw [heq, AList.lookup_insert] at hname
      exact absurd (Option.some.inj hname) (by simp)
    · rw [AList.lookup_insert_ne heq] at hname
      exact h name hname
  · refine h.of_same (setLatest_checkResults _ _ _) fun name => ?_
    by_cases heq : name = ev.label
    · rw [heq]
      exact .inr (setLatest_self _ _ _)
    · exact .inl (setLatest_of_ne _ heq _)

theorem FailedRight.effect {s : HealthCheck} (h : FailedRight s) (e : Event) :
    FailedRight (s.effect e) := by
  cases e with
  | enter | tick => exact h
  | quit => exact h.of_same s.clear_same.1 s.clear_same.2
  | receive o => exact h.onTrigger o
  | mqEvent ev => exact h.onMQEvent ev
  | consumer key =>
    obtain ⟨hresults, hlatest⟩ := s.removeBySerialNo_same key
    exact h.of_same hresults fun name => .inl (congrFun hlatest name)

theorem FailedRight.step {s t : HealthCheck} {e : Event} (h : FailedRight s)
    (ht : step s e = some t) : FailedRight t :=
  (h.effect e).of_same (step_effect ht).1 fun name => .inl (congrFun (step_effect ht).2 name)

theorem statusCode_eq_iff (s : HealthCheck) :
    s.statusCode = 500 ↔ ∃ name, s.checkResults.lookup name = some "failed" := by
  have hany : (s.checkResults.entries.any fun e => e.2 = "failed") = true ↔
      ∃ name, s.checkResults.lookup name = some "failed" := by
    rw [List.any_eq_true]
    constructor
    · rintro ⟨⟨name, status⟩, hmem, heq⟩
      obtain rfl : status = "failed" := of_decide_eq_true heq
      exact ⟨name, AList.mem_lookup_iff.mpr hmem⟩
    · rintro ⟨name, hname⟩
      exact ⟨⟨name, "failed"⟩, AList.mem_lookup_iff.mp hname, decide_eq_true rfl⟩
  rw [statusCode, ← hany]
  split_ifs with h <;> simp [h]

theorem statusCode_of_ne (s : HealthCheck) (h : s.statusCode ≠ 500) : s.statusCode = 200 := by
  rw [statusCode] at h ⊢
  split_ifs at h ⊢
  · exact absurd rfl h
  · rfl

/-- Where the text "failed" is right, the response is never wrongly an error. -/
theorem FailedRight.truthful_iff {s : HealthCheck} (h : FailedRight s) :
    Truthful s ↔ (∀ name, s.latest name ≠ some false) ∨
      ∃ name, s.checkResults.lookup name = some "failed" := by
  constructor
  · intro htruthful
    by_cases hfailed : ∃ name, s.latest name = some false
    · exact .inr (s.statusCode_eq_iff.mp (htruthful.error hfailed))
    · exact .inl (not_exists.mp hfailed)
  · rintro (hall | hrecorded)
    · refine ⟨fun ⟨name, hname⟩ => absurd hname (hall name), fun _ => ?_⟩
      refine s.statusCode_of_ne fun herror => ?_
      obtain ⟨name, hname⟩ := s.statusCode_eq_iff.mp herror
      exact hall name (h name hname)
    · obtain ⟨name, hname⟩ := hrecorded
      exact ⟨fun _ => s.statusCode_eq_iff.mpr ⟨name, hname⟩, fun hall =>
        absurd (h name hname) (hall name)⟩

/-- Whatever is found and received in whatever order, the response is right about the checks
exactly when none has failed last, or the last text of one of them is "failed". -/
theorem run_truthful_iff {c : HealthTargets} {events : List Event} {s : HealthCheck}
    (hr : Runs.run step (start c) events = some s) :
    Truthful s ↔ (∀ name, s.latest name ≠ some false) ∨
      ∃ name, lastText events name = some "failed" := by
  have hguard : Runs.Throughout step (fun _ _ => True) (start c) events :=
    Runs.throughout_of_forall fun _ _ _ => trivial
  have hright : FailedRight s :=
    hguard.invariant (fun _ _ _ h _ ht => h.step ht) (fun name hname => by cases hname) hr
  have htext : ∀ name, s.checkResults.lookup name = lastText events name := fun name => by
    rw [run_checkResults hr]
    exact Option.or_none
  rw [hright.truthful_iff]
  simp only [htext]

/-- A database that does not answer its ping. -/
def brokenDatabase : HealthTargets where
  mongoDBs := [("main", some "no reachable servers")]

def brokenPing : List Event :=
  [.enter, .receive (.ping "mongo-main" (some "no reachable servers")), .enter]

theorem run_truthful_iff_brokenPing :
    ∃ s, Runs.run step (start brokenDatabase) brokenPing = some s ∧ s.phase = .ended ∧
      Truthful s := by
  have hr : Runs.run step (start brokenDatabase) brokenPing = some _ := rfl
  exact ⟨_, hr, by decide, (run_truthful_iff hr).mpr (.inr ⟨"mongo-main", by decide⟩)⟩

/-- A message queue whose broker takes the message. -/
def oneQueue : HealthTargets where
  mqChecks := AList.singleton "mq-main-healthz" (.published "key" "message")

/-- The broker reports that it could not deliver the message. This is written with the reason, and
the timeout is not written at all, so the response is no error. -/
theorem refusedMessage_not_truthful :
    ∃ s, Runs.run step (start oneQueue) [.enter, .receive (.published "mq-main-healthz" "message"),
        .enter, .mqEvent ⟨.failed, "mq-main-healthz", "refused"⟩,
        .enter, .receive (.eventFailed "mq-main-healthz" "refused"),
        .enter, .tick, .enter, .quit, .enter] = some s ∧ s.phase = .ended ∧ ¬ Truthful s := by
  refine ⟨_, rfl, by decide, fun h => ?_⟩
  have herror := h.error ⟨"mq-main-healthz", by decide⟩
  exact absurd herror (by decide)

end HealthCheck
end Gocom
