import Gocom.GuardedRuns
import Gocom.HttpClient
import Mathlib.Data.List.Induction
import Mathlib.Data.List.Perm.Basic

/-!
# What a retry sends

A query goes on through redirects and retries. Its method and headers come along; its body shrinks
by what the transport has read, and the statuses its caller accepts are left behind.
-/

namespace Gocom
namespace HttpClient

/-! ## Headers -/

/-- Names that are one name on the wire have one value. -/
def HeadersAgree (headers : Headers) : Prop :=
  ∀ p ∈ headers, ∀ q ∈ headers,
    canonicalMIMEHeaderKey p.1 = canonicalMIMEHeaderKey q.1 → p.2 = q.2

theorem setHeaders_concat (order : Headers) (p : String × String) :
    setHeaders (order ++ [p]) = (setHeaders order).store (canonicalMIMEHeaderKey p.1) p.2 := by
  rw [setHeaders, List.foldl_append]
  rfl

theorem setHeaders_eq_some_iff {order : Headers} (h : HeadersAgree order) {name value : String} :
    setHeaders order name = some value ↔
      ∃ p ∈ order, canonicalMIMEHeaderKey p.1 = name ∧ p.2 = value := by
  induction order using List.reverseRecOn with
  | nil => simp [setHeaders]
  | append_singleton order q ih =>
    have hfront : HeadersAgree order := fun p hp p' hp' =>
      h p (List.mem_append_left _ hp) p' (List.mem_append_left _ hp')
    have hq : q ∈ order ++ [q] := by simp
    rw [setHeaders_concat, GoMap.store_apply]
    split_ifs with hname
    · constructor
      · exact fun hvalue => ⟨q, hq, hname.symm, Option.some.inj hvalue⟩
      · rintro ⟨p, hp, hpname, rfl⟩
        exact congrArg some (h q hq p hp (hname.symm.trans hpname.symm))
    · rw [ih hfront]
      constructor
      · exact fun ⟨p, hp, hpq⟩ => ⟨p, List.mem_append_left _ hp, hpq⟩
      · rintro ⟨p, hp, hpname, hvalue⟩
        rcases List.mem_append.mp hp with hp | hp
        · exact ⟨p, hp, hpname, hvalue⟩
        · exact absurd (List.mem_singleton.mp hp ▸ hpname.symm) hname

theorem setHeaders_perm {order order' : Headers} (hperm : order.Perm order')
    (h : HeadersAgree order) : setHeaders order = setHeaders order' := by
  have h' : HeadersAgree order' := fun p hp q hq =>
    h p (hperm.mem_iff.mpr hp) q (hperm.mem_iff.mpr hq)
  funext name
  ext value
  rw [setHeaders_eq_some_iff h, setHeaders_eq_some_iff h']
  simp only [hperm.mem_iff]

/-- The headers do not depend on the order of the map exactly when the names agree. -/
theorem setHeaders_perm_iff {headers : Headers} :
    (∀ order order', order.Perm headers → order'.Perm headers →
      setHeaders order = setHeaders order') ↔ HeadersAgree headers := by
  constructor
  · intro h p hp q hq hname
    have hlast := h (headers.erase p ++ [p]) (headers.erase q ++ [q])
      ((List.perm_append_singleton p _).trans (List.perm_cons_erase hp).symm)
      ((List.perm_append_singleton q _).trans (List.perm_cons_erase hq).symm)
    have hvalue := congrFun hlast (canonicalMIMEHeaderKey p.1)
    rw [setHeaders_concat, setHeaders_concat, hname, GoMap.store_self, GoMap.store_self] at hvalue
    exact Option.some.inj hvalue
  · intro h order order' horder horder'
    have hagree : HeadersAgree order := fun p hp q hq =>
      h p (horder.mem_iff.mp hp) q (horder.mem_iff.mp hq)
    exact setHeaders_perm (horder.trans horder'.symm) hagree

/-! ## Fidelity -/

/-- In whatever order the headers are set, the two queries send the same request. -/
def SendsSame (q r : Query) : Prop :=
  ∀ order order', order.Perm q.opts.headers → order'.Perm r.opts.headers →
    q.request order = r.request order'

/-- The second query repeats the first and judges its response alike. -/
def Faithful (q r : Query) : Prop :=
  SendsSame q r ∧ ∀ status, q.opts.acceptsStatus status = r.opts.acceptsStatus status

theorem sendsSame_iff {q r : Query} (hmethod : r.method = q.method)
    (hheaders : r.opts.headers = q.opts.headers) :
    SendsSame q r ↔ r.url = q.url ∧ r.bytes = q.bytes ∧ HeadersAgree q.opts.headers := by
  rw [SendsSame, hheaders, ← setHeaders_perm_iff]
  constructor
  · intro h
    have hself := h _ _ (.refl _) (.refl _)
    exact ⟨(congrArg Request.url hself).symm, (congrArg Request.body hself).symm,
      fun order order' horder horder' => congrArg Request.header (h order order' horder horder')⟩
  · rintro ⟨hurl, hbytes, h⟩ order order' horder horder'
    rw [Query.request, Query.request, hmethod, hurl, hbytes, h order order' horder horder']

theorem acceptsStatus_default_iff (opts opts' : HttpClientOption) (h : opts'.successStatus = []) :
    (∀ status, opts.acceptsStatus status = opts'.acceptsStatus status) ↔
      ∀ status ∈ opts.successStatus, status = 200 := by
  simp only [HttpClientOption.acceptsStatus, h, List.contains_nil, Bool.or_false]
  constructor
  · intro hsame status hmem
    have hstatus := hsame status
    rw [List.contains_iff_mem.mpr hmem, Bool.or_true] at hstatus
    exact of_decide_eq_true hstatus.symm
  · intro hall status
    by_cases hmem : status ∈ opts.successStatus
    · rw [hall status hmem]
      rfl
    · rw [Bool.eq_false_iff.mpr fun hc => hmem (List.contains_iff_mem.mp hc), Bool.or_false]

/-! ## From the first query to a retry -/

/-- The transport failed before it read anything of the body. -/
def Outcome.Untouched (o : Outcome) : Prop := o = .transportError (some 0)

instance (o : Outcome) : Decidable o.Untouched := inferInstanceAs (Decidable (o = _))

/-- Where a query that started at `url` is sent after these outcomes. -/
def lastTarget (url : String) (outcomes : List Outcome) : String :=
  outcomes.foldl (fun url o => o.target.getD url) url

/-- What becomes of a query through its outcomes. -/
structure Descends (q : Query) (outcomes : List Outcome) (p : Query) : Prop where
  method : p.method = q.method
  headers : p.opts.headers = q.opts.headers
  url : p.url = lastTarget q.url outcomes
  shorter : p.bytes.length ≤ q.bytes.length
  kept : (∀ o ∈ outcomes, o.Untouched) → p.bytes = q.bytes
  lost : (∃ o ∈ outcomes, ¬ o.Untouched) → q.bytes ≠ [] → p.bytes.length < q.bytes.length

theorem Descends.refl (q : Query) : Descends q [] q where
  method := rfl
  headers := rfl
  url := rfl
  shorter := le_rfl
  kept _ := rfl
  lost h := absurd h (by simp)

/-- What a retried or redirected query has of the body: what the transport left. -/
theorem unread_bytes (o : Outcome) (q : Query) :
    (getQueryBodyBuffer (o.unread q.body)).length ≤ q.bytes.length ∧
      (o.Untouched → getQueryBodyBuffer (o.unread q.body) = q.bytes) ∧
      (¬ o.Untouched → q.bytes ≠ [] →
        (getQueryBodyBuffer (o.unread q.body)).length < q.bytes.length) := by
  rw [Query.bytes]
  cases q.body with
  | none => exact ⟨le_rfl, fun _ => rfl, fun _ h => absurd rfl h⟩
  | some content =>
    have hempty : content ≠ [] → 0 < content.length := List.length_pos_iff.mpr
    cases o with
    | transportError consumed =>
      cases consumed with
      | none =>
        exact ⟨Nat.zero_le _, fun h => absurd h (by simp [Outcome.Untouched]), fun _ => hempty⟩
      | some n =>
        refine ⟨by simp [Outcome.unread, getQueryBodyBuffer], fun h => ?_, fun h hne => ?_⟩
        · have hn : n = 0 := by simpa [Outcome.Untouched] using h
          simp [Outcome.unread, getQueryBodyBuffer, hn]
        · have hn : n ≠ 0 := by simpa [Outcome.Untouched] using h
          have hlength := hempty hne
          simp only [Outcome.unread, getQueryBodyBuffer, Option.map_some, List.length_drop,
            Option.getD_some]
          omega
    | readError status =>
      exact ⟨Nat.zero_le _, fun h => absurd h (by simp [Outcome.Untouched]), fun _ => hempty⟩
    | response status location =>
      exact ⟨Nat.zero_le _, fun h => absurd h (by simp [Outcome.Untouched]), fun _ => hempty⟩

theorem Descends.next {q p : Query} {answer : Outcome × ℤ} (h : q.next answer = some p) :
    Descends q [answer.1] p := by
  obtain ⟨hshorter, hkept, hlost⟩ := unread_bytes answer.1 q
  rcases q.finish_cases answer.1 answer.2 with hok | ⟨hfail, htarget⟩ |
    ⟨status, location, ho, htarget, hredirect⟩
  · rw [Query.next, hok.1] at h
    exact absurd h (by simp)
  · cases hpending : afterQueryFailed q.method q.url (getQueryBodyBuffer (answer.1.unread q.body))
        q.opts answer.2 with
    | none =>
      rw [Query.next, hfail, hpending] at h
      exact absurd h (by simp)
    | some re =>
      rw [Query.next, hfail, hpending] at h
      obtain rfl := Option.some.inj h
      obtain ⟨-, rfl⟩ := afterQueryFailed_eq_some.mp hpending
      refine ⟨rfl, rfl, ?_, hshorter, fun h => hkept (h _ List.mem_cons_self), fun h => hlost ?_⟩
      · simp [lastTarget, htarget, RequestEntity.retry]
      · simpa using h
  · rw [Query.next, hredirect] at h
    obtain rfl := Option.some.inj h
    have hbytes : Query.bytes { q with url := location, body := q.body.map fun _ => [] } = [] := by
      rw [Query.bytes]
      cases q.body <;> rfl
    refine ⟨rfl, rfl, by simp [lastTarget, htarget], ?_, fun h => ?_, fun _ hne => ?_⟩
    · rw [hbytes]
      exact Nat.zero_le _
    · have huntouched : answer.1.Untouched := h _ List.mem_cons_self
      exact absurd (ho.symm.trans huntouched) (by simp)
    · rw [hbytes]
      exact List.length_pos_iff.mpr hne

theorem Descends.trans {q p r : Query} {os os' : List Outcome} (h : Descends q os p)
    (h' : Descends p os' r) : Descends q (os ++ os') r where
  method := h'.method.trans h.method
  headers := h'.headers.trans h.headers
  url := by rw [h'.url, h.url, lastTarget, lastTarget, lastTarget, List.foldl_append]
  shorter := h'.shorter.trans h.shorter
  kept hall := (h'.kept fun o ho => hall o (List.mem_append_right _ ho)).trans
    (h.kept fun o ho => hall o (List.mem_append_left _ ho))
  lost := by
    rintro ⟨o, ho, htouched⟩ hne
    by_cases hfront : ∃ o ∈ os, ¬ o.Untouched
    · exact h'.shorter.trans_lt (h.lost hfront hne)
    · have hback : o ∈ os' :=
        (List.mem_append.mp ho).resolve_left fun hos => hfront ⟨o, hos, htouched⟩
      have hbytes := h.kept fun o ho => not_not.mp fun hno => hfront ⟨o, ho, hno⟩
      exact hbytes ▸ h'.lost ⟨o, hback, htouched⟩ (hbytes.symm ▸ hne)

theorem descends_run {q p : Query} {answers : List (Outcome × ℤ)}
    (h : Runs.run Query.next q answers = some p) : Descends q (answers.map Prod.fst) p := by
  induction answers generalizing q with
  | nil => exact Option.some.inj h ▸ Descends.refl q
  | cons answer answers ih =>
    obtain ⟨r, hr, h⟩ := Runs.run_cons_eq_some.mp h
    exact (Descends.next hr).trans (ih h)

/-- The condition under which a retry after these outcomes repeats the query. -/
structure KeepsRequest (q : Query) (outcomes : List Outcome) : Prop where
  statuses : ∀ status ∈ q.opts.successStatus, status = 200
  headers : HeadersAgree q.opts.headers
  body : q.bytes = [] ∧ lastTarget q.url outcomes = q.url ∨ ∀ o ∈ outcomes, o.Untouched

theorem lastTarget_untouched {url : String} {outcomes : List Outcome}
    (h : ∀ o ∈ outcomes, o.Untouched) : lastTarget url outcomes = url := by
  induction outcomes with
  | nil => rfl
  | cons o outcomes ih =>
    have ho : o.target = none := by rw [h o List.mem_cons_self]; rfl
    rw [lastTarget, List.foldl_cons, ho]
    exact ih fun o ho => h o (List.mem_cons_of_mem _ ho)

/-- A retry of a call repeats it exactly when no other status is accepted, the names of the headers
agree, and either there is no body and no redirect led elsewhere or all the sending so far failed
before any of the body was read. -/
theorem retry_faithful_iff (method url : String) (body : Option Bytes) (options : List ClientOption)
    (answers : List (Outcome × ℤ)) (last : Outcome × ℤ) (p : Query) (re : RequestEntity)
    (hrun : Runs.run Query.next (httpQuery method url body options) answers = some p)
    (hfailed : p.finish last.1 last.2 = .failed (some re)) :
    Faithful (httpQuery method url body options) re.retry ↔
      KeepsRequest (httpQuery method url body options) ((answers ++ [last]).map Prod.fst) := by
  have hnext : p.next last = some re.retry := by rw [Query.next, hfailed]
  have h := (descends_run hrun).trans (Descends.next hnext)
  rw [List.map_append, List.map_singleton]
  generalize httpQuery method url body options = q at h ⊢
  generalize answers.map Prod.fst ++ [last.1] = outcomes at h ⊢
  rw [Faithful, sendsSame_iff h.method h.headers, acceptsStatus_default_iff _ _ rfl]
  constructor
  · rintro ⟨⟨hurl, hbytes, hheaders⟩, hstatuses⟩
    refine ⟨hstatuses, hheaders, ?_⟩
    by_cases hempty : q.bytes = []
    · exact .inl ⟨hempty, h.url.symm.trans hurl⟩
    · refine .inr fun o ho => not_not.mp fun htouched => ?_
      have hlost := h.lost ⟨o, ho, htouched⟩ hempty
      exact absurd hbytes fun heq => (heq ▸ hlost).false
  · rintro ⟨hstatuses, hheaders, hbody⟩
    refine ⟨?_, hstatuses⟩
    rcases hbody with ⟨hempty, htarget⟩ | hall
    · refine ⟨h.url.trans htarget, ?_, hheaders⟩
      have hshorter := h.shorter
      rw [hempty] at hshorter ⊢
      exact List.eq_nil_of_length_eq_zero (Nat.le_zero.mp hshorter)
    · exact ⟨h.url.trans (lastTarget_untouched hall), h.kept hall, hheaders⟩

def postX : Query := httpQuery "POST" "http://a" (some [120]) [.withRetry 1]

/-- What is queued when the query failed with so much of its body unread. -/
def postXPending (unread : Bytes) : RequestEntity := ⟨"POST", "http://a", unread, postX.opts, 5⟩

/-- A refused POST is repeated without its body. -/
theorem postX_refused_notFaithful :
    postX.finish (.response 500 "") 0 = .failed (some (postXPending [])) ∧
      ¬ Faithful postX (postXPending []).retry := by
  refine ⟨rfl, fun h => ?_⟩
  have hbytes := ((sendsSame_iff (q := postX) (r := (postXPending []).retry) rfl rfl).mp h.1).2.1
  exact absurd hbytes (by decide)

/-- It is repeated as it was when no connection came about. -/
theorem postX_unsent_faithful : Faithful postX (postXPending [120]).retry := by
  refine (retry_faithful_iff "POST" "http://a" (some [120]) [.withRetry 1] []
    (.transportError (some 0), 0) postX (postXPending [120]) rfl rfl).mpr ⟨by decide, ?_, ?_⟩
  · intro p hp q hq _
    rw [List.mem_singleton.mp hp, List.mem_singleton.mp hq]
  · exact .inr (by decide)

end HttpClient
end Gocom
