import Gocom.GoMaps
import Gocom.SignatureContent
import Mathlib.Tactic.ByContra

/-!
# Access control of requests

A request is let in when its session is logged in, or by its Authorization header, or by its
Signature header. The user verification of the application, the hash and the configuration are
parameters. What is let in and what should be let in agree exactly on the requests described by
`AccessRequest.Unaffected`.
-/

namespace Gocom

structure LoginUser where
  userID : Bytes
  verifyPassword : Bytes → Bool

/-- `VerifyUser` of a login verifier: user name, password and remote address. -/
abbrev VerifyUser := Bytes → Bytes → Bytes → Except String LoginUser

/-- The users for local clients, by name. -/
def builtinVerifyUser (users : GoMap Bytes LoginUser) : VerifyUser := fun userName passwordOrHash _ =>
  match users userName with
  | none => .error "User name does not exists"
  | some u =>
    if u.verifyPassword passwordOrHash = false then .error "User password were not correct"
    else .ok u

structure AccessEnv where
  userVerifyManager : Option VerifyUser
  builtinUsers : GoMap Bytes LoginUser := .empty
  defaultSignatureAppKey : Bytes := []
  properties : GoMap String Bytes := .empty
  md5Hex : Bytes → Bytes

/-- A request of a session. Headers are kept under canonical names, and the body is what
reading it gives. -/
structure AccessRequest where
  method : String
  headers : GoMap String Bytes := .empty
  remoteAddr : Bytes := []
  urlParams : List (Bytes × Bytes) := []
  body : Except String Bytes := .ok []
  sessionUserID : Bytes := []

namespace AccessRequest

/-! ## Headers -/

/-- Letters are upper case at the start of a word and lower case elsewhere. -/
def canonicalFrom : Bool → List Char → List Char
  | _, [] => []
  | upper, ch :: rest =>
    (if upper then ch.toUpper else ch.toLower) :: canonicalFrom (ch = '-') rest

def getHeader (r : AccessRequest) (name : String) : Bytes :=
  (r.headers (String.ofList (canonicalFrom true name.toList))).getD []

def startsUpper (name : String) : Bool :=
  match name.toList with
  | [] => false
  | ch :: _ => 'A' ≤ ch ∧ ch < 'Z'

def getHeaderValue (r : AccessRequest) (name : String) : Bytes :=
  let val := r.getHeader name
  if val = [] ∧ startsUpper name then
    r.getHeader (String.ofList (name.toList.map Char.toLower))
  else val

def getRemoteAddress (r : AccessRequest) : Bytes :=
  if r.getHeader "X-Real-IP" ≠ [] then r.getHeader "X-Real-IP"
  else if r.getHeader "x-real-ip" ≠ [] then r.getHeader "x-real-ip"
  else beforeLast r.remoteAddr 58

def authorization (r : AccessRequest) : Bytes := r.getHeaderValue "Authorization"

def signature (r : AccessRequest) : Bytes := r.getHeaderValue "Signature"

def isLocal (remoteIP : Bytes) : Bool :=
  asciiBytes "127.0.0.1" = remoteIP ∨ asciiBytes "::1" = remoteIP

end AccessRequest

namespace AccessEnv

variable (env : AccessEnv)

/-! ## Signatures -/

def getSignatureAppKey : Bytes :=
  match env.properties "aclAppKey" with
  | none => env.defaultSignatureAppKey
  | some key => if [] ≠ key then key else env.defaultSignatureAppKey

def signatureOptions : SignatureOption := { sortedFields := .asc, skipEmptyField := true }

def expectedSignValue (r : AccessRequest) : Except String Bytes :=
  match r.method with
  | "GET" =>
    .ok (generateSignatureDataMd5 env.md5Hex env.getSignatureAppKey r.urlParams signatureOptions)
  | "POST" | "PATCH" | "PUT" | "DELETE" =>
    match r.body with
    | .error err => .error err
    | .ok body => .ok (generateSignatureDataMd5Ex env.md5Hex env.getSignatureAppKey body)
  | method => .error ("Unsupported method " ++ method)

/-- The error is set at the start and never cleared. -/
def validateSignature (r : AccessRequest) (signValue : Bytes) : Option String :=
  let err := some "Invalid signature"
  match expectedSignValue env r with
  | .error err => some err
  | .ok expectedSignValue => if signValue ≠ expectedSignValue then err else err

/-! ## Tokens -/

def outcome : Except String LoginUser → Option LoginUser × Option String
  | .ok u => (some u, none)
  | .error err => (none, some err)

/-- Verify credentials, where `err` is what decoding them gave. -/
def verifyCredentials (userName passPart remoteIP : Bytes) (err : Option String) :
    Option LoginUser × Option String :=
  let (u, err) := match env.userVerifyManager with
    | none => (none, err)
    | some verifyUser => outcome (verifyUser userName passPart remoteIP)
  if u.isNone ∧ AccessRequest.isLocal remoteIP then
    outcome (builtinVerifyUser env.builtinUsers userName passPart remoteIP)
  else (u, err)

def validateAuthorizationToken (authToken remoteIP : Bytes) : Bytes × Option String :=
  match splitN2 authToken 32 with
  | (_, none) => ([], some "Un recognized token")
  | (scheme, some token) =>
    if scheme = asciiBytes "Basic" then
      let (basicToken, corrupt) := base64DecodeString token
      let err := corrupt.map fun offset => "illegal base64 data at input byte " ++ toString offset
      let (userName, passPart) := splitN2 basicToken 58
      let (u, err) := verifyCredentials env userName (passPart.getD []) remoteIP err
      ((u.map LoginUser.userID).getD [], err)
    else if scheme = asciiBytes "Bearer" then ([], none)
    else ([], none)

/-- The user and the error, if there is one. -/
def verifyAccessControl (r : AccessRequest) : Bytes × Option String :=
  if r.sessionUserID ≠ [] then (r.sessionUserID, none)
  else
    let (uid, err) :=
      if [] ≠ r.authorization then validateAuthorizationToken env r.authorization r.getRemoteAddress
      else ([], some "Not Authorized")
    if [] ≠ r.signature ∧ [] ≠ env.getSignatureAppKey then
      (uid, validateSignature env r r.signature)
    else (uid, err)

end AccessEnv

namespace AccessRequest

/-- What is left of a request when the handler has read its body. -/
def bodyRead (r : AccessRequest) : AccessRequest :=
  match r.method with
  | "GET" | "HEAD" => r
  | _ => { r with body := r.body.map fun _ => [] }

/-- The user of a request to a handler, or why it is not authorized. -/
def authorize (env : AccessEnv) (disablesAuthorization : Bool) (r : AccessRequest) :
    Except String Bytes :=
  match env.verifyAccessControl r.bodyRead with
  | (uid, some err) => if disablesAuthorization = false then .error err else .ok uid
  | (uid, none) => .ok uid

/-! ## Proofs of identity -/

variable (env : AccessEnv) (r : AccessRequest)

def LoggedIn : Prop := r.sessionUserID ≠ []

/-- The user verification, or for a local client the builtin users, accept the credentials. -/
def Verifies (userName passPart remoteIP : Bytes) : Prop :=
  (∃ verifyUser u, env.userVerifyManager = some verifyUser ∧
    verifyUser userName passPart remoteIP = .ok u) ∨
  (isLocal remoteIP ∧ ∃ u, builtinVerifyUser env.builtinUsers userName passPart remoteIP = .ok u)

/-- The token that follows the scheme `Basic`. -/
def basicToken : Option Bytes :=
  match splitN2 r.authorization 32 with
  | (scheme, some token) => if scheme = asciiBytes "Basic" then some token else none
  | (_, none) => none

/-- The credentials in a token, as far as it can be decoded, are accepted. -/
def CredentialsAccepted (token : Bytes) : Prop :=
  Verifies env (splitN2 (base64DecodeString token).1 58).1
    ((splitN2 (base64DecodeString token).1 58).2.getD []) r.getRemoteAddress

/-- A token that is not empty and can be decoded. -/
def WellFormed (token : Bytes) : Prop := token ≠ [] ∧ (base64DecodeString token).2 = none

def BasicAccepted : Prop :=
  ∃ token, r.basicToken = some token ∧ WellFormed token ∧ r.CredentialsAccepted env token

/-- There is a signature, and it is looked at. -/
def SignatureUsed : Prop := r.signature ≠ [] ∧ env.getSignatureAppKey ≠ []

def SignatureValid : Prop :=
  r.SignatureUsed env ∧ env.expectedSignValue r = .ok r.signature

/-- The request presents one proof of identity, and a valid one. -/
def PresentsOne : Prop :=
  (r.LoggedIn ∧ r.authorization = [] ∧ r.signature = []) ∨
  (r.BasicAccepted env ∧ ¬ r.LoggedIn ∧ r.signature = []) ∨
  (r.SignatureValid env ∧ ¬ r.LoggedIn ∧ r.authorization = [])

def Authorized : Prop := ∃ uid, r.authorize env false = .ok uid

def Sound : Prop :=
  r.Authorized env → r.LoggedIn ∨ r.BasicAccepted env ∨ r.SignatureValid env

def Complete : Prop := r.PresentsOne env → r.Authorized env

/-! ## When the two agree -/

/-- Somebody verifies credentials. -/
def VerifierConsulted : Prop := env.userVerifyManager ≠ none ∨ isLocal r.getRemoteAddress

/-- The token is well-formed or refused; where nobody verifies, it cannot be decoded. -/
def TokenHarmless (token : Bytes) : Prop :=
  (r.VerifierConsulted env ∧ (WellFormed token ∨ ¬ r.CredentialsAccepted env token)) ∨
  (¬ r.VerifierConsulted env ∧ (base64DecodeString token).2 ≠ none)

/-- The header is missing, or has no scheme, or is of scheme `Basic` with such a token. -/
def AuthorizationHarmless : Prop :=
  r.authorization = [] ∨ (splitN2 r.authorization 32).2 = none ∨
    ∃ token, r.basicToken = some token ∧ r.TokenHarmless env token

def Unaffected : Prop :=
  r.LoggedIn ∨ (r.SignatureUsed env ∧ (r.authorization ≠ [] ∨ ¬ r.SignatureValid env)) ∨
    (¬ r.SignatureUsed env ∧ r.AuthorizationHarmless env)

variable {env r}

theorem outcome_eq_none_iff {res : Except String LoginUser} :
    (AccessEnv.outcome res).2 = none ↔ ∃ u, res = .ok u := by
  cases res with
  | ok u => simp [AccessEnv.outcome]
  | error err => simp [AccessEnv.outcome]

theorem verifyCredentials_err_eq_none_iff {userName passPart : Bytes} {err : Option String} :
    (env.verifyCredentials userName passPart r.getRemoteAddress err).2 = none ↔
      Verifies env userName passPart r.getRemoteAddress ∨
        (¬ r.VerifierConsulted env ∧ err = none) := by
  rw [AccessEnv.verifyCredentials, Verifies, VerifierConsulted]
  cases hmanager : env.userVerifyManager with
  | none =>
    by_cases hlocal : isLocal r.getRemoteAddress = true
    · simp [hlocal, outcome_eq_none_iff]
    · simp [hlocal]
  | some verifyUser =>
    cases hverify : verifyUser userName passPart r.getRemoteAddress with
    | ok u => simp [AccessEnv.outcome, hverify]
    | error err' =>
      by_cases hlocal : isLocal r.getRemoteAddress = true
      · simp [AccessEnv.outcome, hverify, hlocal, ← outcome_eq_none_iff]
      · simp [AccessEnv.outcome, hverify, hlocal]

/-- The token of a `Basic` header passes when its credentials, as far as they can be decoded,
are accepted, or when nobody verifies them and they can be decoded. -/
theorem validateAuthorizationToken_basic {token : Bytes} (htoken : r.basicToken = some token) :
    (env.validateAuthorizationToken r.authorization r.getRemoteAddress).2 = none ↔
      r.CredentialsAccepted env token ∨
        (¬ r.VerifierConsulted env ∧ (base64DecodeString token).2 = none) := by
  rw [basicToken] at htoken
  rw [AccessEnv.validateAuthorizationToken]
  cases hsplit : splitN2 r.authorization 32 with
  | mk scheme rest =>
    cases rest with
    | none => simp [hsplit] at htoken
    | some token' =>
      simp only [hsplit] at htoken
      split_ifs at htoken with hscheme
      obtain rfl := Option.some.inj htoken
      simp only [if_pos hscheme]
      rw [verifyCredentials_err_eq_none_iff, CredentialsAccepted, Option.map_eq_none_iff]

/-- Any other header with a blank in it passes. -/
theorem validateAuthorizationToken_other (htoken : r.basicToken = none) :
    (env.validateAuthorizationToken r.authorization r.getRemoteAddress).2 = none ↔
      (splitN2 r.authorization 32).2 ≠ none := by
  rw [basicToken] at htoken
  rw [AccessEnv.validateAuthorizationToken]
  cases hsplit : splitN2 r.authorization 32 with
  | mk scheme rest =>
    cases rest with
    | none => simp
    | some token =>
      simp only [hsplit] at htoken
      split_ifs at htoken with hscheme
      simp only [if_neg hscheme, ite_self]
      simp

theorem bodyRead_eq (r : AccessRequest) : ∃ body, r.bodyRead = { r with body } := by
  rw [bodyRead]
  split
  · exact ⟨r.body, rfl⟩
  · exact ⟨r.body, rfl⟩
  · exact ⟨_, rfl⟩

theorem validateSignature_ne_none (r : AccessRequest) (signValue : Bytes) :
    env.validateSignature r signValue ≠ none := by
  rw [AccessEnv.validateSignature]
  cases env.expectedSignValue r with
  | error err => simp
  | ok expectedSignValue => simp

theorem verifyAccessControl_err_eq_none_iff {r : AccessRequest} :
    (env.verifyAccessControl r).2 = none ↔ r.LoggedIn ∨ (¬ r.SignatureUsed env ∧
      r.authorization ≠ [] ∧
        (env.validateAuthorizationToken r.authorization r.getRemoteAddress).2 = none) := by
  rw [AccessEnv.verifyAccessControl, LoggedIn, SignatureUsed]
  by_cases hlogged : r.sessionUserID ≠ []
  · simp [hlogged]
  · have hused : ([] ≠ r.signature ∧ [] ≠ env.getSignatureAppKey) ↔
        (r.signature ≠ [] ∧ env.getSignatureAppKey ≠ []) := by
      rw [ne_comm, ne_comm (a := [])]
    by_cases hsign : [] ≠ r.signature ∧ [] ≠ env.getSignatureAppKey
    · simp only [if_neg hlogged, if_pos hsign]
      simp [hlogged, hused.mp hsign, validateSignature_ne_none]
    · have hunused : ¬ (r.signature ≠ [] ∧ env.getSignatureAppKey ≠ []) :=
        fun h => hsign (hused.mpr h)
      by_cases hauth : [] ≠ r.authorization
      · simp only [if_neg hlogged, if_neg hsign, if_pos hauth]
        simp [hlogged, hunused, hauth.symm]
      · simp only [if_neg hlogged, if_neg hsign, if_neg hauth]
        simp only [ne_eq, not_not] at hauth
        simp [hlogged, ← hauth]

theorem authorized_iff : r.Authorized env ↔ r.LoggedIn ∨ (¬ r.SignatureUsed env ∧
    r.authorization ≠ [] ∧
      (env.validateAuthorizationToken r.authorization r.getRemoteAddress).2 = none) := by
  have hbody : (env.verifyAccessControl r.bodyRead).2 = none ↔ r.LoggedIn ∨
      (¬ r.SignatureUsed env ∧ r.authorization ≠ [] ∧
        (env.validateAuthorizationToken r.authorization r.getRemoteAddress).2 = none) := by
    obtain ⟨body, hbody⟩ := bodyRead_eq r
    rw [hbody]
    exact verifyAccessControl_err_eq_none_iff
  rw [← hbody, Authorized, authorize]
  cases env.verifyAccessControl r.bodyRead with
  | mk uid err => cases err <;> simp

theorem BasicAccepted.token_passes (h : r.BasicAccepted env) :
    (env.validateAuthorizationToken r.authorization r.getRemoteAddress).2 = none := by
  obtain ⟨token, htoken, -, haccepted⟩ := h
  exact (validateAuthorizationToken_basic htoken).mpr (.inl haccepted)

theorem BasicAccepted.authorization_ne (h : r.BasicAccepted env) : r.authorization ≠ [] := by
  obtain ⟨token, htoken, -⟩ := h
  intro hempty
  simp [basicToken, hempty, splitN2] at htoken

/-- A token that passes is proof of identity exactly when the header is harmless. -/
theorem passing_accepted_iff (hauth : r.authorization ≠ []) :
    ((env.validateAuthorizationToken r.authorization r.getRemoteAddress).2 = none →
      r.BasicAccepted env) ↔ r.AuthorizationHarmless env := by
  cases htoken : r.basicToken with
  | none =>
    have hnot : ¬ r.BasicAccepted env := by
      rintro ⟨token, hsome, -⟩
      rw [htoken] at hsome
      cases hsome
    simp [validateAuthorizationToken_other htoken, hnot, AuthorizationHarmless, hauth, htoken]
  | some token =>
    have hblank : (splitN2 r.authorization 32).2 ≠ none := by
      intro hnone
      rw [basicToken] at htoken
      cases hsplit : splitN2 r.authorization 32 with
      | mk scheme rest =>
        rw [hsplit] at hnone
        obtain rfl : rest = none := hnone
        simp [hsplit] at htoken
    have haccepted : r.BasicAccepted env ↔ WellFormed token ∧ r.CredentialsAccepted env token := by
      simp [BasicAccepted, htoken]
    have hharmless : r.AuthorizationHarmless env ↔ r.TokenHarmless env token := by
      simp [AuthorizationHarmless, hauth, hblank, htoken]
    -- whoever is accepted has been verified
    have hconsulted : r.CredentialsAccepted env token → r.VerifierConsulted env := by
      rintro (⟨verifyUser, u, hmanager, -⟩ | ⟨hlocal, -⟩)
      · exact .inl (by simp [hmanager])
      · exact .inr hlocal
    rw [validateAuthorizationToken_basic htoken, haccepted, hharmless, TokenHarmless]
    by_cases hc : r.VerifierConsulted env <;> by_cases ha : r.CredentialsAccepted env token
    · simp [hc, ha]
    · simp [hc, ha]
    · exact absurd (hconsulted ha) hc
    · simp [hc, ha]

theorem sound_iff : r.Sound env ↔
    r.LoggedIn ∨ r.SignatureUsed env ∨ r.AuthorizationHarmless env := by
  rw [Sound, authorized_iff]
  by_cases hlogged : r.LoggedIn
  · simp [hlogged]
  by_cases hused : r.SignatureUsed env
  · simp [hlogged, hused]
  have hsign : ¬ r.SignatureValid env := fun h => hused h.1
  by_cases hauth : r.authorization = []
  · simp [hlogged, hused, hauth, AuthorizationHarmless]
  · rw [← passing_accepted_iff hauth]
    simp [hlogged, hused, hauth, hsign]

theorem complete_iff : r.Complete env ↔
    r.LoggedIn ∨ r.authorization ≠ [] ∨ ¬ r.SignatureValid env := by
  rw [Complete, authorized_iff]
  constructor
  · intro hcomplete
    by_contra hnot
    simp only [not_or, ne_eq, not_not] at hnot
    obtain ⟨hlogged, hauth, hsign⟩ := hnot
    rcases hcomplete (.inr (.inr ⟨hsign, hlogged, hauth⟩)) with hin | ⟨hunused, -⟩
    · exact hlogged hin
    · exact hunused hsign.1
  · rintro hcases (⟨hlogged, -, -⟩ | ⟨hbasic, -, hsign⟩ | ⟨hsign, hlogged, hauth⟩)
    · exact .inl hlogged
    · exact .inr ⟨fun hused => hused.1 hsign, hbasic.authorization_ne, hbasic.token_passes⟩
    · rcases hcases with hin | hauth' | hnot
      · exact .inl hin
      · exact absurd hauth hauth'
      · exact absurd hsign hnot

/-- Only proofs of identity let a request in, and a single valid one does, exactly when the
request is unaffected. -/
theorem sound_and_complete_iff (env : AccessEnv) (r : AccessRequest) :
    (r.Sound env ∧ r.Complete env) ↔ r.Unaffected env := by
  rw [sound_iff, complete_iff, Unaffected]
  by_cases hlogged : r.LoggedIn
  · simp [hlogged]
  by_cases hused : r.SignatureUsed env
  · simp [hlogged, hused]
  · have hsign : ¬ r.SignatureValid env := fun h => hused h.1
    simp [hlogged, hused, hsign]

/-- A verifier that knows nobody. -/
def strictEnv : AccessEnv where
  userVerifyManager := some fun _ _ _ => .error "User name does not exists"
  md5Hex _ := []

def bearerRequest : AccessRequest where
  method := "GET"
  headers := GoMap.empty.store "Authorization" (asciiBytes "Bearer x")

/-- Any token of scheme `Bearer` is let in. -/
theorem bearerRequest_not_sound :
    ¬ (bearerRequest.Sound strictEnv ∧ bearerRequest.Complete strictEnv) := by
  rintro ⟨hsound, -⟩
  rcases hsound ⟨[], rfl⟩ with hlogged | ⟨token, htoken, -⟩ | ⟨⟨hsign, -⟩, -⟩
  · exact hlogged rfl
  · have hnone : bearerRequest.basicToken = none := by decide
    rw [hnone] at htoken
    cases htoken
  · exact hsign rfl

end AccessRequest
end Gocom
