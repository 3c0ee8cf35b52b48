import Gocom.GoMaps
import Gocom.MessageEnvelopes
import Gocom.OrderedQueue

/-!
# Queries of the HTTP client

A query is a request built from options, and what becomes of it. A failed query that may still be
retried leaves an entity for the queue of pending requests, which the timer turns back into a
query. Of a reader only the bytes it still holds matter; times are in seconds.
-/

namespace Gocom

structure TLSOptions where
  enabled : Bool := false
  certFile : Bytes := []
  keyFile : Bytes := []
  caFile : Bytes := []
  skipVerify : Bool := false
  verifyClient : Bool := false
  deriving DecidableEq

structure Proxies where
  http : Bytes := []
  https : Bytes := []
  deriving DecidableEq

namespace HttpClient

/-- The accepted statuses are the keys set in the map. -/
structure HttpClientOption where
  headers : Headers := []
  tlsOptions : Option TLSOptions := none
  proxies : Option Proxies := none
  timeouts : ℤ := 0
  retries : ℤ := 0
  shouldRetry : ℤ := 0
  successStatus : List ℤ := []
  deriving DecidableEq

def defaultHTTPClientJSONOptions : HttpClientOption where
  headers := [("Content-Type", "application/json")]
  timeouts := 30

/-- The options callers can pass. -/
inductive ClientOption where
  | withHTTPHeader (name value : String)
  | withHTTPHeaders (headers : Headers)
  | withHTTPTLSOptions (tlsOptions : Option TLSOptions)
  | withHTTPProxies (proxies : Option Proxies)
  | withTimeout (timeoutSeconds : ℤ)
  | withRetry (shouldRetryTimes : ℤ)
  | withSuccessStatusCodes (codes : List ℤ)

def ClientOption.apply : ClientOption → HttpClientOption → HttpClientOption
  | .withHTTPHeader name value, o => { o with headers := o.headers.set name value }
  | .withHTTPHeaders headers, o =>
    { o with headers := headers.foldl (fun h p => h.set p.1 p.2) o.headers }
  | .withHTTPTLSOptions tlsOptions, o => { o with tlsOptions }
  | .withHTTPProxies proxies, o => { o with proxies }
  | .withTimeout timeoutSeconds, o => { o with timeouts := timeoutSeconds }
  | .withRetry shouldRetryTimes, o => { o with shouldRetry := shouldRetryTimes }
  | .withSuccessStatusCodes codes, o => { o with successStatus := o.successStatus ++ codes }

def HttpClientOption.acceptsStatus (opts : HttpClientOption) (status : ℤ) : Bool :=
  status = 200 || opts.successStatus.contains status

/-! ## Header names -/

def validHeaderFieldByte (c : Char) : Bool :=
  c.isAlphanum || "!#$%&'*+-.^_`|~".toList.contains c

def canonicalFrom (upper : Bool) : List Char → List Char
  | [] => []
  | c :: rest => (if upper then c.toUpper else c.toLower) :: canonicalFrom (c == '-') rest

/-- A name with a character that no header has stays as it is. -/
def canonicalMIMEHeaderKey (name : String) : String :=
  if name.toList.all validHeaderFieldByte then String.ofList (canonicalFrom true name.toList)
  else name

/-- Setting the headers of a request, in the order the map is iterated in. -/
def setHeaders (order : Headers) : GoMap String String :=
  order.foldl (fun header p => header.store (canonicalMIMEHeaderKey p.1) p.2) GoMap.empty

/-! ## Queries -/

structure Request where
  method : String
  url : String
  header : GoMap String String
  body : Bytes

/-- The arguments of a call of `HTTPQuery`; a body is what its reader holds. -/
structure Query where
  method : String
  url : String
  body : Option Bytes
  options : List (HttpClientOption → HttpClientOption)

namespace Query

def opts (q : Query) : HttpClientOption :=
  q.options.foldl (fun opts opt => opt opts) defaultHTTPClientJSONOptions

def bytes (q : Query) : Bytes := q.body.getD []

def request (q : Query) (order : Headers) : Request where
  method := q.method
  url := q.url
  header := setHeaders order
  body := q.bytes

end Query

/-- What is left in the reader of a request; reading from a broken one fails. -/
inductive Reader where
  | holding (rest : Bytes)
  | broken

def getQueryBodyBuffer : Option Reader → Bytes
  | none => []
  | some (.holding rest) => rest
  | some .broken => []

/-- How sending a request ends: in an error, after that many bytes of the body were read unless
the body has become unreadable; in an error while the response was read; or in a response. -/
inductive Outcome where
  | transportError (consumed : Option ℕ)
  | readError (status : ℤ)
  | response (status : ℤ) (location : String)
  deriving DecidableEq

/-- The body of the request after that. A response comes when all of it has been read. -/
def Outcome.unread (o : Outcome) (body : Option Bytes) : Option Reader :=
  body.map fun content =>
    match o with
    | .transportError (some consumed) => .holding (content.drop consumed)
    | .transportError none => .broken
    | .readError _ | .response _ _ => .holding []

structure RequestEntity where
  method : String
  url : String
  body : Bytes
  options : HttpClientOption
  triggerTimestamp : ℤ
  deriving DecidableEq

instance : IElement RequestEntity where
  getID := RequestEntity.url
  orderingValue := RequestEntity.triggerTimestamp

def retryDurationFactor : ℤ := 5

def formatRetryDuration (retries : ℤ) : ℤ :=
  if retries < 3 then retryDurationFactor else retryDurationFactor * retries

/-- The entity that is queued, if the query may be retried. -/
def afterQueryFailed (method url : String) (body : Bytes) (opts : HttpClientOption) (now : ℤ) :
    Option RequestEntity :=
  if opts.shouldRetry > 0 then
    if opts.retries ≥ opts.shouldRetry then none
    else some ⟨method, url, body, opts, now + formatRetryDuration opts.retries⟩
  else none

namespace RequestEntity

def retryOption (re : RequestEntity) (o : HttpClientOption) : HttpClientOption :=
  { o with
    headers := re.options.headers
    proxies := re.options.proxies
    retries := re.options.retries + 1
    shouldRetry := re.options.shouldRetry
    timeouts := re.options.timeouts
    tlsOptions := re.options.tlsOptions }

/-- The query that a due entity becomes. -/
def retry (re : RequestEntity) : Query where
  method := re.method
  url := re.url
  body := some re.body
  options := [re.retryOption]

/-- A retry keeps every option but the accepted statuses. -/
theorem retry_opts (re : RequestEntity) :
    re.retry.opts =
      { re.options with retries := re.options.retries + 1, successStatus := [] } := rfl

end RequestEntity

/-- How a query ends, or goes on at another location. -/
inductive Finish where
  | succeeded
  | failed (pending : Option RequestEntity)
  | redirected (q : Query)

def httpQuery (method url : String) (body : Option Bytes) (options : List ClientOption) : Query :=
  ⟨method, url, body, options.map ClientOption.apply⟩

/-- The rest of `HTTPQuery` once the request has been sent. -/
def Query.finish (q : Query) (o : Outcome) (now : ℤ) : Finish :=
  let body := getQueryBodyBuffer (o.unread q.body)
  let failed := .failed (afterQueryFailed q.method q.url body q.opts now)
  match o with
  | .transportError _ => failed
  | .readError _ => failed
  | .response status location =>
    if status ≠ 200 then
      if q.opts.successStatus.contains status then .succeeded
      else if (status = 301 ∨ status = 302) ∧ "" ≠ location then
        .redirected { q with url := location, body := q.body.map fun _ => [] }
      else failed
    else .succeeded

/-- The query that is sent next, after an answer at some time. -/
def Query.next (q : Query) (answer : Outcome × ℤ) : Option Query :=
  match q.finish answer.1 answer.2 with
  | .succeeded => none
  | .failed none => none
  | .failed (some re) => some re.retry
  | .redirected q' => some q'

theorem afterQueryFailed_eq_some {method url : String} {body : Bytes} {opts : HttpClientOption}
    {now : ℤ} {re : RequestEntity} :
    afterQueryFailed method url body opts now = some re ↔
      (0 < opts.shouldRetry ∧ opts.retries < opts.shouldRetry) ∧
        re = ⟨method, url, body, opts, now + formatRetryDuration opts.retries⟩ := by
  rw [afterQueryFailed]
  split_ifs with hshould hretries
  · simp [Int.not_lt.mpr hretries]
  · simp [hshould, Int.not_le.mp hretries, eq_comm]
  · simp [hshould]

/-- Where a response sends the client that follows it. -/
def Outcome.target : Outcome → Option String
  | .response status location =>
    if (status = 301 ∨ status = 302) ∧ "" ≠ location then some location else none
  | _ => none

/-- What an answer can lead to. -/
theorem Query.finish_cases (q : Query) (o : Outcome) (now : ℤ) :
    (q.finish o now = .succeeded ∧ ∃ status location, o = .response status location) ∨
    (q.finish o now = .failed
      (afterQueryFailed q.method q.url (getQueryBodyBuffer (o.unread q.body)) q.opts now) ∧
      o.target = none) ∨
    ∃ status location, o = .response status location ∧ o.target = some location ∧
      q.finish o now = .redirected { q with url := location, body := q.body.map fun _ => [] } := by
  cases o with
  | transportError consumed => exact .inr (.inl ⟨rfl, rfl⟩)
  | readError status => exact .inr (.inl ⟨rfl, rfl⟩)
  | response status location =>
    by_cases hok : status = 200
    · exact .inl ⟨by simp [Query.finish, hok], status, location, rfl⟩
    · by_cases haccepted : q.opts.successStatus.contains status = true
      · exact .inl ⟨by rw [Query.finish, if_pos hok, if_pos haccepted], status, location, rfl⟩
      · by_cases hredirect : (status = 301 ∨ status = 302) ∧ "" ≠ location
        · refine .inr (.inr ⟨status, location, rfl, if_pos hredirect, ?_⟩)
          rw [Query.finish, if_pos hok, if_neg haccepted, if_pos hredirect]
        · refine .inr (.inl ⟨?_, if_neg hredirect⟩)
          rw [Query.finish, if_pos hok, if_neg haccepted, if_neg hredirect]

end HttpClient
end Gocom
