import Gocom.GuardedRuns
import Gocom.HttpClient
import Gocom.OrderedQueueRuns
import Mathlib.Algebra.Order.Group.Multiset
import Mathlib.Data.List.Perm.Basic
import Mathlib.Tactic.Abel

/-!
# Runs of the retry timer

Callers and timer goroutines share the queue of pending requests and interleave at every queue
operation and every request. A query belongs to the call that first made it, known by its number;
at any time a call is in one place at most: with the goroutine that performs it, in the queue, or
with the timer goroutine that is checking it.
-/

namespace Gocom
namespace HttpClient

/-- A queued entity and the call it came from. -/
structure PendingRequest where
  origin : ℕ
  entity : RequestEntity
  deriving DecidableEq

instance : IElement PendingRequest where
  getID p := p.entity.url
  orderingValue p := p.entity.triggerTimestamp

/-- A query being performed, before or after its request was handed to the transport. -/
structure Activity where
  origin : ℕ
  query : Query
  sent : Bool := false

inductive Goroutine where
  | caller (a : Activity)
  | starting
  | creating
  | waiting
  | popping (now : ℤ)
  | checking (now : ℤ) (p : PendingRequest)
  | retrying (now : ℤ) (p : PendingRequest) (a : Activity)
  | returned

namespace Goroutine

def activity : Goroutine → Option Activity
  | .caller a => some a
  | .retrying _ _ a => some a
  | _ => none

/-- The tick and the entity on account of which a query is performed. -/
def cause : Goroutine → Option (PendingRequest × ℤ)
  | .retrying now p _ => some (p, now)
  | _ => none

def perform : Goroutine → Activity → Goroutine
  | .retrying now p _, a => .retrying now p a
  | _, a => .caller a

/-- Where the goroutine goes on when its query has ended. -/
def resume : Goroutine → Goroutine
  | .retrying now _ _ => .popping now
  | _ => .returned

end Goroutine

/-- What has happened so far, oldest first. -/
inductive RetryEntry where
  | attempted (origin : ℕ) (cause : Option (PendingRequest × ℤ))
  | succeeded (origin : ℕ)
  | queued (p : PendingRequest)
  | taken (p : PendingRequest) (now : ℤ)
  deriving DecidableEq

namespace RetryEntry

def origin : RetryEntry → ℕ
  | .attempted origin _ => origin
  | .succeeded origin => origin
  | .queued p => p.origin
  | .taken p _ => p.origin

def isAttempt (origin : ℕ) : RetryEntry → Bool
  | .attempted i _ => i = origin
  | _ => false

def enqueued : RetryEntry → Option PendingRequest
  | .queued p => some p
  | _ => none

def dequeued : RetryEntry → Option PendingRequest
  | .taken p _ => some p
  | _ => none

end RetryEntry

structure RetrySystem where
  queue : OrderedQueue PendingRequest := OrderedQueue.newAscOrderingQueue
  goroutines : List Goroutine := []
  ticker : Bool := false
  issued : List Query := []
  log : List RetryEntry := []

namespace RetrySystem

inductive Event where
  | call (method url : String) (body : Option Bytes) (options : List ClientOption)
  | enter (k : ℕ)
  | create (k : ℕ)
  | tick (k : ℕ) (now : ℤ)
  | pop (k : ℕ)
  | check (k : ℕ)
  | refuse (k : ℕ)
  | send (k : ℕ)
  | answer (k : ℕ) (o : Outcome) (now : ℤ)

def put (s : RetrySystem) (k : ℕ) (g : Goroutine) : RetrySystem :=
  { s with goroutines := s.goroutines.set k g }

def write (s : RetrySystem) (e : RetryEntry) : RetrySystem := { s with log := s.log ++ [e] }

def push (s : RetrySystem) (p : PendingRequest) : RetrySystem :=
  { s with queue := (s.queue.push p).1 }

/-- Queueing a failed query, and starting the timer unless there is one. -/
def afterFailure (s : RetrySystem) (p : PendingRequest) : RetrySystem :=
  let s := (s.push p).write (.queued p)
  if s.ticker then s else { s with goroutines := s.goroutines ++ [.starting] }

/-- One step of goroutine `k`, which is `g`; or a new call. -/
def step (s : RetrySystem) : Event → Option RetrySystem
  | .call method url body options =>
    let query := httpQuery method url body options
    some { s with
      goroutines := s.goroutines ++ [.caller { origin := s.issued.length, query }]
      issued := s.issued ++ [query] }
  | .enter k =>
    match s.goroutines[k]? with
    | some .starting => some (s.put k (if s.ticker then .returned else .creating))
    | _ => none
  | .create k =>
    match s.goroutines[k]? with
    | some .creating => some { s.put k .waiting with ticker := true }
    | _ => none
  | .tick k now =>
    match s.goroutines[k]? with
    | some .waiting => some (s.put k (.popping now))
    | _ => none
  | .pop k =>
    match s.goroutines[k]? with
    | some (.popping now) =>
      match s.queue.pop with
      | (queue, some p) => some { s.put k (.checking now p) with queue }
      | (queue, none) => some { s.put k .waiting with queue }
    | _ => none
  | .check k =>
    match s.goroutines[k]? with
    | some (.checking now p) =>
      if p.entity.triggerTimestamp ≤ now then
        some ((s.put k (.retrying now p { origin := p.origin, query := p.entity.retry })).write
          (.taken p now))
      else some ((s.put k .waiting).push p)
    | _ => none
  | .refuse k =>
    match s.goroutines[k]? with
    | none => none
    | some g =>
      match g.activity with
      | none => none
      | some a => if a.sent then none else some (s.put k g.resume)
  | .send k =>
    match s.goroutines[k]? with
    | none => none
    | some g =>
      match g.activity with
      | none => none
      | some a =>
        if a.sent then none
        else
          some ((s.put k (g.perform { a with sent := true })).write (.attempted a.origin g.cause))
  | .answer k o now =>
    match s.goroutines[k]? with
    | none => none
    | some g =>
      match g.activity with
      | none => none
      | some a =>
        if a.sent then
          match a.query.finish o now with
          | .succeeded => some ((s.put k g.resume).write (.succeeded a.origin))
          | .failed none => some (s.put k g.resume)
          | .failed (some re) => some ((s.put k g.resume).afterFailure ⟨a.origin, re⟩)
          | .redirected q => some (s.put k (g.perform { a with query := q, sent := false }))
        else none

/-! ## Places -/

/-- A call somewhere on its way: being performed, or waiting to be retried. -/
inductive Token where
  | active (a : Activity)
  | pending (p : PendingRequest)

namespace Token

def origin : Token → ℕ
  | .active a => a.origin
  | .pending p => p.origin

def opts : Token → HttpClientOption
  | .active a => a.query.opts
  | .pending p => p.entity.options

def waiting : Token → Option PendingRequest
  | .active _ => none
  | .pending p => some p

/-- How often the call was attempted when it is here. -/
def attempts : Token → ℤ
  | .active a => a.query.opts.retries + if a.sent then 1 else 0
  | .pending p => p.entity.options.retries + 1

/-- The retries that are used up: not all of them when one more is waiting. -/
def Within : Token → Prop
  | .active a => a.query.opts.retries ≤ max 0 a.query.opts.shouldRetry
  | .pending p => p.entity.options.retries < p.entity.options.shouldRetry

end Token

def token : Goroutine → Option Token
  | .caller a => some (.active a)
  | .retrying _ _ a => some (.active a)
  | .checking _ p => some (.pending p)
  | _ => none

/-- Where the calls are. -/
def tokens (s : RetrySystem) : Multiset Token :=
  (s.goroutines.filterMap token : Multiset Token) + (s.queue.queue.map .pending : List Token)

/-- What a step does to a call: where it was, where it is then if anywhere, and what happened. -/
inductive Change : Token → Option Token → List RetryEntry → Prop
  | dropped (a : Activity) : Change (.active a) none []
  | sent (a : Activity) (cause : Option (PendingRequest × ℤ)) (hsent : a.sent = false)
      (hdue : ∀ p now, cause = some (p, now) →
        p.origin = a.origin ∧ p.entity.triggerTimestamp ≤ now) :
      Change (.active a) (some (.active { a with sent := true })) [.attempted a.origin cause]
  | succeeded (a : Activity) : Change (.active a) none [.succeeded a.origin]
  | queued (a : Activity) (re : RequestEntity) (hsent : a.sent = true)
      (hopts : re.options = a.query.opts) (hretries : re.options.retries < re.options.shouldRetry) :
      Change (.active a) (some (.pending ⟨a.origin, re⟩)) [.queued ⟨a.origin, re⟩]
  | taken (p : PendingRequest) (now : ℤ) (hdue : p.entity.triggerTimestamp ≤ now) :
      Change (.pending p) (some (.active { origin := p.origin, query := p.entity.retry }))
        [.taken p now]

/-- What a step does to the calls. -/
inductive Effect (s t : RetrySystem) : Prop
  | moved (htokens : tokens t = tokens s) (hlog : t.log = s.log) (hissued : t.issued = s.issued)
  | called (method url : String) (body : Option Bytes) (options : List ClientOption)
      (htokens : tokens t = .active ⟨s.issued.length, httpQuery method url body options, false⟩ ::ₘ
        tokens s)
      (hlog : t.log = s.log) (hissued : t.issued = s.issued ++ [httpQuery method url body options])
  | changed (x : Token) (y : Option Token) (es : List RetryEntry) (others : Multiset Token)
      (hchange : Change x y es) (hbefore : tokens s = x ::ₘ others)
      (hafter : tokens t = (y.toList : Multiset Token) + others)
      (hlog : t.log = s.log ++ es) (hissued : t.issued = s.issued)

theorem tokens_put {s : RetrySystem} {k : ℕ} {g : Goroutine} (hg : s.goroutines[k]? = some g) :
    ∃ others, tokens s = (token g).toList + others ∧
      ∀ g', tokens (s.put k g') = (token g').toList + others := by
  obtain ⟨hk, hget⟩ := List.getElem?_eq_some_iff.mp hg
  refine ⟨((s.goroutines.eraseIdx k).filterMap token : Multiset Token) +
    (s.queue.queue.map .pending : List Token), ?_, fun g' => ?_⟩
  · have hperm := (List.getElem_cons_eraseIdx_perm hk).symm.filterMap token
    rw [hget] at hperm
    rw [tokens, Multiset.coe_eq_coe.mpr hperm]
    cases hg : token g <;> simp [hg]
  · have hperm := (List.set_perm_cons_eraseIdx hk g').filterMap token
    rw [tokens, put, Multiset.coe_eq_coe.mpr hperm]
    cases hg : token g' <;> simp [hg]

/-- A retrying goroutine performs a query of the call whose entity was due. -/
def Due : Goroutine → Prop
  | .retrying now p a => p.origin = a.origin ∧ p.entity.triggerTimestamp ≤ now
  | _ => True

def AllDue (s : RetrySystem) : Prop := ∀ g ∈ s.goroutines, Due g

/-- The answer is no redirect. -/
def Event.Direct : Event → Prop
  | .answer _ (.response status _) _ => status ≠ 301 ∧ status ≠ 302
  | _ => True

theorem finish_of_direct {q : Query} {k : ℕ} {o : Outcome} {now : ℤ}
    (h : (Event.answer k o now).Direct) : q.finish o now = .succeeded ∨
      q.finish o now = .failed
        (afterQueryFailed q.method q.url (getQueryBodyBuffer (o.unread q.body)) q.opts now) := by
  rcases q.finish_cases o now with hok | hfail | ⟨status, location, rfl, htarget, hfinish⟩
  · exact .inl hok.1
  · exact .inr hfail.1
  · rw [Outcome.target, if_neg (fun hr => hr.1.elim h.1 h.2)] at htarget
    exact absurd htarget (by simp)

theorem activity_token {g : Goroutine} {a : Activity} (h : g.activity = some a) :
    token g = some (.active a) ∧ token g.resume = none ∧
      ∀ b, token (g.perform b) = some (.active b) := by
  cases g <;> simp_all [Goroutine.activity, token, Goroutine.resume, Goroutine.perform]

theorem due_cause {g : Goroutine} {a : Activity} (h : Due g) (ha : g.activity = some a) :
    ∀ p now, g.cause = some (p, now) → p.origin = a.origin ∧ p.entity.triggerTimestamp ≤ now := by
  cases g with
  | retrying now p b =>
    obtain rfl := Option.some.inj ha
    intro p' now' hcause
    obtain ⟨rfl, rfl⟩ := Prod.mk.inj (Option.some.inj hcause)
    exact h
  | _ => exact fun p now hcause => absurd hcause (by simp [Goroutine.cause])

theorem push_perm {α : Type*} [IElement α] (q : OrderedQueue α) (item : α) :
    (q.push item).1.queue.Perm (item :: q.queue) := by
  rw [OrderedQueue.push, OrderedQueue.add, OrderedQueue.pushItemToOrderedQueue]
  dsimp only
  split_ifs with hnil hend
  · rw [List.length_eq_zero_iff.mp (Nat.le_zero.mp hnil)]
  · exact List.perm_append_singleton item q.queue
  · rw [List.append_assoc, List.singleton_append]
    refine List.perm_middle.trans ?_
    rw [List.take_append_drop]

theorem tokens_push (s : RetrySystem) (p : PendingRequest) :
    tokens (s.push p) = .pending p ::ₘ tokens s := by
  have hperm := (push_perm s.queue p).map Token.pending
  rw [tokens, tokens, push, Multiset.coe_eq_coe.mpr hperm, List.map_cons, ← Multiset.cons_coe,
    Multiset.add_cons]

@[simp] theorem tokens_write (s : RetrySystem) (e : RetryEntry) :
    tokens (s.write e) = tokens s := rfl

theorem tokens_spawn (s : RetrySystem) (g : Goroutine) :
    tokens { s with goroutines := s.goroutines ++ [g] } = (token g).toList + tokens s := by
  rw [tokens, tokens, List.filterMap_append, ← Multiset.coe_add, ← add_assoc,
    add_comm ((token g).toList : Multiset Token)]
  cases hg : token g <;> simp [hg]

theorem tokens_afterFailure (s : RetrySystem) (p : PendingRequest) :
    tokens (s.afterFailure p) = .pending p ::ₘ tokens s := by
  rw [afterFailure]
  split_ifs with hticker
  · exact tokens_push s p
  · rw [tokens_spawn, tokens_write, tokens_push]
    exact zero_add _

theorem afterFailure_log (s : RetrySystem) (p : PendingRequest) :
    (s.afterFailure p).log = s.log ++ [.queued p] ∧ (s.afterFailure p).issued = s.issued := by
  rw [afterFailure]
  split_ifs <;> exact ⟨rfl, rfl⟩

/-- A goroutine that carries no call goes on without one. -/
theorem tokens_put_idle {s : RetrySystem} {k : ℕ} {g g' : Goroutine}
    (hg : s.goroutines[k]? = some g) (h : token g' = token g) : tokens (s.put k g') = tokens s := by
  obtain ⟨others, hbefore, hafter⟩ := tokens_put hg
  rw [hafter, h, hbefore]

/-- Popping moves the head of the queue to the goroutine. -/
theorem tokens_pop {s : RetrySystem} {k : ℕ} {now : ℤ} {queue : OrderedQueue PendingRequest}
    {front : Option PendingRequest} (hg : s.goroutines[k]? = some (.popping now))
    (hqueue : s.queue.queue = front.toList ++ queue.queue) {g : Goroutine}
    (htoken : token g = front.map .pending) : tokens { s.put k g with queue } = tokens s := by
  have hrest : tokens s = (front.map Token.pending).toList + tokens { s with queue } := by
    rw [tokens, tokens, hqueue, List.map_append, ← Multiset.coe_add, add_left_comm]
    cases front <;> rfl
  have hg : ({ s with queue } : RetrySystem).goroutines[k]? = some (.popping now) := hg
  obtain ⟨others, hbefore, hafter⟩ := tokens_put hg
  rw [hrest, hbefore, ← htoken]
  exact (hafter g).trans (congrArg _ (zero_add others).symm)

theorem AllDue.put {s : RetrySystem} {k : ℕ} {g : Goroutine} (h : AllDue s) (hg : Due g) :
    AllDue (s.put k g) := fun g' hmem =>
  (List.mem_or_eq_of_mem_set hmem).elim (h g') fun heq => heq ▸ hg

theorem AllDue.spawn {s : RetrySystem} {g : Goroutine} (h : AllDue s) (hg : Due g) :
    AllDue { s with goroutines := s.goroutines ++ [g] } := fun g' hmem =>
  (List.mem_append.mp hmem).elim (h g') fun heq => List.mem_singleton.mp heq ▸ hg

theorem AllDue.afterFailure {s : RetrySystem} (h : AllDue s) (p : PendingRequest) :
    AllDue (s.afterFailure p) := by
  rw [RetrySystem.afterFailure]
  split_ifs with hticker
  · exact h
  · exact AllDue.spawn (s := (s.push p).write (.queued p)) h trivial

theorem due_resume (g : Goroutine) : Due g.resume := by
  cases g <;> trivial

theorem due_perform {g : Goroutine} {a b : Activity} (hdue : Due g) (ha : g.activity = some a)
    (hb : b.origin = a.origin) : Due (g.perform b) := by
  cases g with
  | retrying now p c =>
    obtain rfl := Option.some.inj ha
    exact ⟨hdue.1.trans hb.symm, hdue.2⟩
  | _ => trivial

/-- Refused, sent or answered is a query that the goroutine performs. -/
theorem performing_of_step {s t : RetrySystem} {e : Event} {k : ℕ} (h : s.step e = some t)
    (he : e = .refuse k ∨ e = .send k ∨ ∃ o now, e = .answer k o now) :
    ∃ g a others, s.goroutines[k]? = some g ∧ g.activity = some a ∧
      tokens s = .active a ::ₘ others ∧
      ∀ g', tokens (s.put k g') = (token g').toList + others := by
  cases hg : s.goroutines[k]? with
  | none =>
    have hnone : s.step e = none := by
      rcases he with rfl | rfl | ⟨o, now, rfl⟩ <;> simp only [step, hg]
    rw [hnone] at h
    cases h
  | some g =>
    cases ha : g.activity with
    | none =>
      have hnone : s.step e = none := by
        rcases he with rfl | rfl | ⟨o, now, rfl⟩ <;> simp only [step, hg, ha]
      rw [hnone] at h
      cases h
    | some a =>
      obtain ⟨others, hbefore, hafter⟩ := tokens_put hg
      rw [(activity_token ha).1] at hbefore
      exact ⟨g, a, others, rfl, ha, hbefore, hafter⟩

theorem refuse_effect {s t : RetrySystem} {k : ℕ} (hdue : AllDue s)
    (h : s.step (.refuse k) = some t) : AllDue t ∧ Effect s t := by
  obtain ⟨g, a, others, hg, ha, hbefore, hafter⟩ := performing_of_step h (.inl rfl)
  simp only [step, hg, ha] at h
  split_ifs at h
  obtain rfl := Option.some.inj h
  refine ⟨hdue.put (due_resume g), .changed (.active a) none [] others (.dropped a) hbefore ?_
    (List.append_nil _).symm rfl⟩
  rw [hafter, (activity_token ha).2.1]

theorem send_effect {s t : RetrySystem} {k : ℕ} (hdue : AllDue s)
    (h : s.step (.send k) = some t) : AllDue t ∧ Effect s t := by
  obtain ⟨g, a, others, hg, ha, hbefore, hafter⟩ := performing_of_step h (.inr (.inl rfl))
  have hdueg := hdue g (List.mem_of_getElem? hg)
  simp only [step, hg, ha] at h
  split_ifs at h with hsent
  obtain rfl := Option.some.inj h
  refine ⟨hdue.put (due_perform hdueg ha rfl), .changed (.active a) _ _ others
    (.sent a g.cause (Bool.not_eq_true _ ▸ hsent) (due_cause hdueg ha)) hbefore ?_ rfl rfl⟩
  rw [tokens_write, hafter, (activity_token ha).2.2]

/-- A failure ends the call, or queues it when it may be retried. -/
theorem failed_effect {s : RetrySystem} {k : ℕ} {g : Goroutine} {a : Activity}
    {others : Multiset Token} (hdue : AllDue s) (ha : g.activity = some a)
    (hsent : a.sent = true) (hbefore : tokens s = .active a ::ₘ others)
    (hafter : ∀ g', tokens (s.put k g') = (token g').toList + others)
    {buffer : Bytes} {now : ℤ} {re : RequestEntity}
    (hfailed : afterQueryFailed a.query.method a.query.url buffer a.query.opts now = some re) :
    AllDue ((s.put k g.resume).afterFailure ⟨a.origin, re⟩) ∧
      Effect s ((s.put k g.resume).afterFailure ⟨a.origin, re⟩) := by
  obtain ⟨⟨-, hretries⟩, rfl⟩ := afterQueryFailed_eq_some.mp hfailed
  obtain ⟨hlog, hissued⟩ := afterFailure_log (s.put k g.resume) ⟨a.origin, _⟩
  refine ⟨(hdue.put (due_resume g)).afterFailure _, .changed (.active a) _ _ others
    (.queued a _ hsent rfl hretries) hbefore ?_ hlog hissued⟩
  rw [tokens_afterFailure, hafter, (activity_token ha).2.1]
  exact congrArg _ (zero_add others)

theorem answer_effect {s t : RetrySystem} {k : ℕ} {o : Outcome} {now : ℤ} (hdue : AllDue s)
    (hdirect : (Event.answer k o now).Direct) (h : s.step (.answer k o now) = some t) :
    AllDue t ∧ Effect s t := by
  obtain ⟨g, a, others, hg, ha, hbefore, hafter⟩ :=
    performing_of_step h (.inr (.inr ⟨o, now, rfl⟩))
  have hended := hdue.put (k := k) (due_resume g)
  have hresume := (activity_token ha).2.1
  simp only [step, hg, ha] at h
  split_ifs at h with hsent
  rcases finish_of_direct (q := a.query) hdirect with hok | hfail
  · rw [hok] at h
    obtain rfl := Option.some.inj h
    refine ⟨hended, .changed (.active a) none _ others (.succeeded a) hbefore ?_ rfl rfl⟩
    rw [tokens_write, hafter, hresume]
  · rw [hfail] at h
    cases hpending : afterQueryFailed a.query.method a.query.url
        (getQueryBodyBuffer (o.unread a.query.body)) a.query.opts now with
    | none =>
      rw [hpending] at h
      obtain rfl := Option.some.inj h
      refine ⟨hended, .changed (.active a) none [] others (.dropped a) hbefore ?_
        (List.append_nil _).symm rfl⟩
      rw [hafter, hresume]
    | some re =>
      rw [hpending] at h
      obtain rfl := Option.some.inj h
      exact failed_effect hdue ha hsent hbefore hafter hpending

theorem pop_effect {s t : RetrySystem} {k : ℕ} (hdue : AllDue s) (h : s.step (.pop k) = some t) :
    AllDue t ∧ Effect s t := by
  simp only [step] at h
  split at h
  case h_1 now hg =>
    have hsplit := (OrderedQueue.pop_split s.queue).2
    split at h
    case h_1 queue p hpop =>
      obtain rfl := Option.some.inj h
      rw [hpop] at hsplit
      exact ⟨hdue.put trivial, .moved (tokens_pop hg hsplit rfl) rfl rfl⟩
    case h_2 queue hpop =>
      obtain rfl := Option.some.inj h
      rw [hpop] at hsplit
      exact ⟨hdue.put trivial, .moved (tokens_pop hg hsplit rfl) rfl rfl⟩
  case h_2 => exact absurd h (by simp)

theorem check_effect {s t : RetrySystem} {k : ℕ} (hdue : AllDue s)
    (h : s.step (.check k) = some t) : AllDue t ∧ Effect s t := by
  simp only [step] at h
  split at h
  case h_1 now p hg =>
    obtain ⟨others, hbefore, hafter⟩ := tokens_put hg
    split_ifs at h with htrigger
    · obtain rfl := Option.some.inj h
      exact ⟨hdue.put ⟨rfl, htrigger⟩, .changed (.pending p) _ _ others (.taken p now htrigger)
        hbefore (hafter (.retrying now p { origin := p.origin, query := p.entity.retry }))
        rfl rfl⟩
    · obtain rfl := Option.some.inj h
      refine ⟨hdue.put trivial, .moved ?_ rfl rfl⟩
      rw [tokens_push, hafter, hbefore]
      exact congrArg _ (zero_add others)
  case h_2 => exact absurd h (by simp)

/-- Each step moves the calls, starts one, or changes one. -/
theorem step_effect {s t : RetrySystem} {e : Event} (hdue : AllDue s) (hdirect : e.Direct)
    (h : s.step e = some t) : AllDue t ∧ Effect s t := by
  cases e with
  | call method url body options =>
    obtain rfl := Option.some.inj h
    exact ⟨AllDue.spawn hdue trivial, .called method url body options (tokens_spawn s _) rfl rfl⟩
  | enter k =>
    simp only [step] at h
    split at h
    case h_1 hg =>
      obtain rfl := Option.some.inj h
      refine ⟨hdue.put ?_, .moved (tokens_put_idle hg ?_) rfl rfl⟩
      · split_ifs <;> trivial
      · split_ifs <;> rfl
    case h_2 => exact absurd h (by simp)
  | create k =>
    simp only [step] at h
    split at h
    case h_1 hg =>
      obtain rfl := Option.some.inj h
      exact ⟨hdue.put trivial, .moved (tokens_put_idle hg rfl) rfl rfl⟩
    case h_2 => exact absurd h (by simp)
  | tick k now =>
    simp only [step] at h
    split at h
    case h_1 hg =>
      obtain rfl := Option.some.inj h
      exact ⟨hdue.put trivial, .moved (tokens_put_idle hg rfl) rfl rfl⟩
    case h_2 => exact absurd h (by simp)
  | pop k => exact pop_effect hdue h
  | check k => exact check_effect hdue h
  | refuse k => exact refuse_effect hdue h
  | send k => exact send_effect hdue h
  | answer k o now => exact answer_effect hdue hdirect h

/-! ## The invariant -/

/-- How often the call was attempted. -/
def attempts (log : List RetryEntry) (origin : ℕ) : ℕ := log.countP (·.isAttempt origin)

/-- A call in flight is where its history says. -/
structure Token.Fits (x : Token) (issued : List Query) (log : List RetryEntry) : Prop where
  issuedBy : ∃ q, issued[x.origin]? = some q ∧ x.opts.shouldRetry = q.opts.shouldRetry
  within : x.Within
  counted : (RetrySystem.attempts log x.origin : ℤ) = x.attempts
  unfinished : .succeeded x.origin ∉ log

/-- No attempt comes after a success of the same call. -/
def Quiet (log : List RetryEntry) : Prop :=
  log.Pairwise fun e e' => ∀ i cause, e = .succeeded i → e' ≠ .attempted i cause

structure Sound (xs : Multiset Token) (issued : List Query) (log : List RetryEntry) : Prop where
  fits : ∀ x ∈ xs, x.Fits issued log
  once : (xs.map Token.origin).Nodup
  known : ∀ e ∈ log, e.origin < issued.length
  bounded : ∀ i q, issued[i]? = some q → attempts log i ≤ 1 + q.opts.shouldRetry.toNat
  quiet : Quiet log
  due : ∀ i p now, .attempted i (some (p, now)) ∈ log →
    p.origin = i ∧ p.entity.triggerTimestamp ≤ now
  takenDue : ∀ p now, .taken p now ∈ log → p.entity.triggerTimestamp ≤ now
  balanced : (log.filterMap RetryEntry.enqueued : Multiset PendingRequest) =
    xs.filterMap Token.waiting + log.filterMap RetryEntry.dequeued

theorem attempts_append (log es : List RetryEntry) (i : ℕ) :
    attempts (log ++ es) i = attempts log i + attempts es i := List.countP_append

theorem attempts_attempted (log : List RetryEntry) (i : ℕ) (cause : Option (PendingRequest × ℤ)) :
    attempts (log ++ [.attempted i cause]) i = attempts log i + 1 := by
  simp [attempts, RetryEntry.isAttempt]

theorem attempts_concat {e : RetryEntry} {i : ℕ} (h : e.isAttempt i = false)
    (log : List RetryEntry) : attempts (log ++ [e]) i = attempts log i := by
  simp [attempts, h]

theorem attempts_eq_zero {log : List RetryEntry} {i : ℕ} (h : ∀ e ∈ log, e.origin ≠ i) :
    attempts log i = 0 := by
  refine List.countP_eq_zero.mpr fun e he hattempt => h e he ?_
  cases e with
  | attempted j cause => exact of_decide_eq_true hattempt
  | _ => exact absurd hattempt Bool.false_ne_true

theorem not_succeeded {log : List RetryEntry} {i : ℕ} (h : ∀ e ∈ log, e.origin ≠ i) :
    .succeeded i ∉ log := fun hmem => h _ hmem rfl

theorem Token.Fits.append {x : Token} {issued : List Query} {log es : List RetryEntry}
    (h : x.Fits issued log) (hes : ∀ e ∈ es, e.origin ≠ x.origin) : x.Fits issued (log ++ es) where
  issuedBy := h.issuedBy
  within := h.within
  counted := by rw [attempts_append, attempts_eq_zero hes, Nat.add_zero, h.counted]
  unfinished hmem := (List.mem_append.mp hmem).elim h.unfinished (not_succeeded hes)

theorem Token.Fits.issue {x : Token} {issued : List Query} {log : List RetryEntry}
    (h : x.Fits issued log) (q : Query) : x.Fits (issued ++ [q]) log where
  issuedBy := by
    obtain ⟨q', hq, hretry⟩ := h.issuedBy
    exact ⟨q', List.getElem?_append_left (List.getElem?_eq_some_iff.mp hq).1 ▸ hq, hretry⟩
  within := h.within
  counted := h.counted
  unfinished := h.unfinished

theorem Change.origins {x : Token} {y : Option Token} {es : List RetryEntry} (h : Change x y es) :
    (∀ e ∈ es, e.origin = x.origin) ∧ ∀ z, y = some z → z.origin = x.origin := by
  cases h <;> simp [RetryEntry.origin, Token.origin]

theorem Change.fits {x z : Token} {es : List RetryEntry} {issued : List Query}
    {log : List RetryEntry} (h : Change x (some z) es) (hx : x.Fits issued log) :
    z.Fits issued (log ++ es) := by
  obtain ⟨q, hq, hretry⟩ := hx.issuedBy
  have hwithin := hx.within
  have hcounted := hx.counted
  have hunfinished := hx.unfinished
  cases h with
  | sent a cause hsent hdue =>
    refine ⟨⟨q, hq, hretry⟩, hwithin, ?_, by simpa [Token.origin] using hunfinished⟩
    simp only [Token.origin, Token.attempts, hsent, Bool.false_eq_true, if_false] at hcounted ⊢
    rw [attempts_attempted, if_pos trivial]
    omega
  | queued a re hsent hopts hretries =>
    refine ⟨⟨q, hq, ?_⟩, hretries, ?_, by simpa [Token.origin] using hunfinished⟩
    · exact (congrArg HttpClientOption.shouldRetry hopts).trans hretry
    · simp only [Token.origin, Token.attempts, hsent, if_true] at hcounted ⊢
      rw [attempts_concat rfl, hopts]
      exact hcounted
  | taken p now hdue =>
    refine ⟨⟨q, hq, hretry⟩, ?_, ?_, by simpa [Token.origin] using hunfinished⟩
    · simp only [Token.Within, RequestEntity.retry_opts] at hwithin ⊢
      omega
    · simp only [Token.origin, Token.attempts, RequestEntity.retry_opts, Bool.false_eq_true,
        if_false] at hcounted ⊢
      rw [attempts_concat rfl]
      omega

/-- An attempt is one that the retries of the call allow. -/
theorem Change.bounded {x : Token} {y : Option Token} {es : List RetryEntry} {issued : List Query}
    {log : List RetryEntry} (h : Change x y es) (hx : x.Fits issued log) {i : ℕ} {q : Query}
    (hq : issued[i]? = some q) (hbound : attempts log i ≤ 1 + q.opts.shouldRetry.toNat) :
    attempts (log ++ es) i ≤ 1 + q.opts.shouldRetry.toNat := by
  cases h with
  | sent a cause hsent hdue =>
    by_cases hi : a.origin = i
    · obtain ⟨q', hq', hretry⟩ := hx.issuedBy
      have hwithin := hx.within
      have hcounted := hx.counted
      simp only [Token.origin, Token.opts, Token.Within, Token.attempts, hsent, Bool.false_eq_true,
        if_false, hi] at hq' hretry hwithin hcounted
      obtain rfl := Option.some.inj (hq'.symm.trans hq)
      rw [hi, attempts_attempted]
      omega
    · rw [attempts_concat (e := .attempted a.origin cause) (decide_eq_false hi)]
      exact hbound
  | dropped a => rwa [List.append_nil]
  | succeeded a => rwa [attempts_concat rfl]
  | queued a re hsent hopts hretries => rwa [attempts_concat rfl]
  | taken p now hdue => rwa [attempts_concat rfl]

theorem Change.quiet {x : Token} {y : Option Token} {es : List RetryEntry} {issued : List Query}
    {log : List RetryEntry} (h : Change x y es) (hx : x.Fits issued log) (hlog : Quiet log) :
    Quiet (log ++ es) := by
  refine List.pairwise_append.mpr ⟨hlog, ?_, ?_⟩
  · cases h <;> simp
  · intro e he e' he' i cause hsucceeded hattempted
    cases h with
    | sent a cause' hsent hdue =>
      obtain ⟨rfl, -⟩ :=
        RetryEntry.attempted.inj (hattempted.symm.trans (List.mem_singleton.mp he'))
      exact hx.unfinished (hsucceeded ▸ he)
    | dropped a => simp at he'
    | _ => simp [hattempted] at he'

theorem Change.due {x : Token} {y : Option Token} {es : List RetryEntry} (h : Change x y es)
    {i : ℕ} {p : PendingRequest} {now : ℤ} (hmem : .attempted i (some (p, now)) ∈ es) :
    p.origin = i ∧ p.entity.triggerTimestamp ≤ now := by
  cases h with
  | sent a cause hsent hdue =>
    obtain ⟨rfl, hcause⟩ := RetryEntry.attempted.inj (List.mem_singleton.mp hmem)
    exact hdue p now hcause.symm
  | _ => simp at hmem

theorem Change.takenDue {x : Token} {y : Option Token} {es : List RetryEntry} (h : Change x y es)
    {p : PendingRequest} {now : ℤ} (hmem : .taken p now ∈ es) :
    p.entity.triggerTimestamp ≤ now := by
  cases h with
  | taken p' now' hdue =>
    obtain ⟨rfl, rfl⟩ := RetryEntry.taken.inj (List.mem_singleton.mp hmem)
    exact hdue
  | _ => simp at hmem

theorem Change.balanced {x : Token} {y : Option Token} {es : List RetryEntry} (h : Change x y es) :
    ({x} : Multiset Token).filterMap Token.waiting + es.filterMap RetryEntry.enqueued =
      (y.toList : Multiset Token).filterMap Token.waiting + es.filterMap RetryEntry.dequeued := by
  cases h <;> rfl

theorem httpQuery_retries (method url : String) (body : Option Bytes)
    (options : List ClientOption) : (httpQuery method url body options).opts.retries = 0 := by
  have hfold : ∀ (opts : HttpClientOption), opts.retries = 0 →
      ((options.map ClientOption.apply).foldl (fun opts opt => opt opts) opts).retries = 0 := by
    induction options with
    | nil => exact fun opts h => h
    | cons opt options ih =>
      intro opts h
      refine ih _ ?_
      cases opt <;> exact h
  exact hfold _ rfl

theorem Sound.called {xs : Multiset Token} {issued : List Query} {log : List RetryEntry}
    (h : Sound xs issued log) (method url : String) (body : Option Bytes)
    (options : List ClientOption) :
    Sound (.active ⟨issued.length, httpQuery method url body options, false⟩ ::ₘ xs)
      (issued ++ [httpQuery method url body options]) log := by
  have hfresh : ∀ e ∈ log, e.origin ≠ issued.length := fun e he => (h.known e he).ne
  refine ⟨fun x hx => ?_, ?_, fun e he => ?_, fun i q hq => ?_, h.quiet, h.due,
    h.takenDue, ?_⟩
  · rcases Multiset.mem_cons.mp hx with rfl | hx
    · refine ⟨⟨_, List.getElem?_concat_length, rfl⟩, ?_, ?_, not_succeeded hfresh⟩
      · rw [Token.Within, httpQuery_retries]
        exact le_max_left _ _
      · rw [Token.origin, attempts_eq_zero hfresh, Token.attempts, httpQuery_retries]
        rfl
    · exact (h.fits x hx).issue _
  · rw [Multiset.map_cons, Multiset.nodup_cons]
    refine ⟨fun hmem => ?_, h.once⟩
    obtain ⟨x, hx, horigin⟩ := Multiset.mem_map.mp hmem
    obtain ⟨q, hq, -⟩ := (h.fits x hx).issuedBy
    exact (List.getElem?_eq_some_iff.mp hq).1.ne horigin
  · exact (h.known e he).trans (by simp)
  · rcases Nat.lt_or_ge i issued.length with hi | hi
    · exact h.bounded i q (List.getElem?_append_left hi ▸ hq)
    · rw [attempts_eq_zero fun e he => ((h.known e he).trans_le hi).ne]
      exact Nat.zero_le _
  · rw [Multiset.filterMap_cons_none _ _ rfl, h.balanced]

theorem Sound.changed {x : Token} {y : Option Token} {es : List RetryEntry}
    {others : Multiset Token} {issued : List Query} {log : List RetryEntry}
    (h : Sound (x ::ₘ others) issued log) (hchange : Change x y es) :
    Sound ((y.toList : Multiset Token) + others) issued (log ++ es) := by
  have hx := h.fits x (Multiset.mem_cons_self x others)
  have hothers : ∀ z ∈ others, z.origin ≠ x.origin := by
    have honce := h.once
    rw [Multiset.map_cons, Multiset.nodup_cons] at honce
    exact fun z hz heq => honce.1 (heq ▸ Multiset.mem_map_of_mem Token.origin hz)
  obtain ⟨hes, hy⟩ := hchange.origins
  refine ⟨fun z hz => ?_, ?_, fun e he => ?_, fun i q hq => ?_, hchange.quiet hx h.quiet,
    fun i p now hmem => ?_, fun p now hmem => ?_, ?_⟩
  · rcases Multiset.mem_add.mp hz with hz | hz
    · obtain rfl := Option.mem_toList.mp (Multiset.mem_coe.mp hz)
      exact hchange.fits hx
    · exact (h.fits z (Multiset.mem_cons_of_mem hz)).append
        fun e he heq => hothers z hz (heq.symm.trans (hes e he))
  · have honce := h.once
    rw [Multiset.map_cons] at honce
    cases y with
    | none => simpa using (Multiset.nodup_cons.mp honce).2
    | some z => simpa [hy z rfl] using honce
  · rcases List.mem_append.mp he with he | he
    · exact h.known e he
    · obtain ⟨q, hq, -⟩ := hx.issuedBy
      exact hes e he ▸ (List.getElem?_eq_some_iff.mp hq).1
  · exact hchange.bounded hx hq (h.bounded i q hq)
  · exact (List.mem_append.mp hmem).elim (h.due i p now) hchange.due
  · exact (List.mem_append.mp hmem).elim (h.takenDue p now) hchange.takenDue
  · have hbefore := h.balanced
    have hafter := hchange.balanced
    rw [← Multiset.singleton_add, Multiset.filterMap_add] at hbefore
    rw [List.filterMap_append, List.filterMap_append, ← Multiset.coe_add, ← Multiset.coe_add,
      hbefore, Multiset.filterMap_add]
    calc ({x} : Multiset Token).filterMap Token.waiting + others.filterMap Token.waiting +
          log.filterMap RetryEntry.dequeued + es.filterMap RetryEntry.enqueued =
        ({x} : Multiset Token).filterMap Token.waiting + es.filterMap RetryEntry.enqueued +
          (others.filterMap Token.waiting + log.filterMap RetryEntry.dequeued) := by abel
      _ = (y.toList : Multiset Token).filterMap Token.waiting + es.filterMap RetryEntry.dequeued +
          (others.filterMap Token.waiting + log.filterMap RetryEntry.dequeued) := by rw [hafter]
      _ = _ := by abel

/-! ## Runs -/

theorem sound_start : Sound (tokens {}) [] [] where
  fits x hx := absurd hx (Multiset.notMem_zero x)
  once := Multiset.nodup_zero
  known e he := absurd he List.not_mem_nil
  bounded i q hq := absurd hq (by simp)
  quiet := List.Pairwise.nil
  due i p now hmem := absurd hmem List.not_mem_nil
  takenDue p now hmem := absurd hmem List.not_mem_nil
  balanced := rfl

/-- What every step preserves. -/
def Invariant (s : RetrySystem) : Prop := AllDue s ∧ Sound (tokens s) s.issued s.log

theorem Invariant.step {s t : RetrySystem} {e : Event} (h : Invariant s) (hdirect : e.Direct)
    (ht : s.step e = some t) : Invariant t := by
  obtain ⟨hdue, heffect⟩ := step_effect h.1 hdirect ht
  refine ⟨hdue, ?_⟩
  have hsound := h.2
  cases heffect with
  | moved htokens hlog hissued =>
    rw [htokens, hlog, hissued]
    exact hsound
  | called method url body options htokens hlog hissued =>
    rw [htokens, hlog, hissued]
    exact hsound.called method url body options
  | changed x y es others hchange hbefore hafter hlog hissued =>
    rw [hbefore] at hsound
    rw [hafter, hlog, hissued]
    exact hsound.changed hchange

theorem run_invariant {s : RetrySystem} {events : List Event}
    (hdirect : ∀ e ∈ events, e.Direct) (hrun : Runs.run step {} events = some s) : Invariant s := by
  have hguard : Runs.Throughout step (fun _ e => e.Direct) {} events :=
    Runs.throughout_of_forall fun e he _ => hdirect e he
  exact hguard.invariant (fun _ _ _ h hdirect ht => h.step hdirect ht)
    ⟨fun g hg => absurd hg List.not_mem_nil, sound_start⟩ hrun

/-- The entity a timer goroutine has popped and not yet decided on. -/
def held : Goroutine → Option PendingRequest
  | .checking _ p => some p
  | _ => none

end RetrySystem
end HttpClient
end Gocom
