import Gocom.GoStrings
import Gocom.HttpClient
import Gocom.MemoPools

/-!
# The pool of transports

Transports are shared under a key that joins the file names and the proxy with dashes. The key says
neither which name stands for what nor whether the server is verified.
-/

namespace Gocom

namespace Proxies

def valid (n : Proxies) : Bool := n.http ≠ [] ∨ n.https ≠ []

def getProxyURL (n : Proxies) : Bytes := if [] = n.http then n.https else n.http

end Proxies

/-- The condition under which the two files are read. -/
def TLSOptions.hasKeyPair (tls : TLSOptions) : Bool := [] ≠ tls.certFile ∨ [] ≠ tls.keyFile

namespace HttpClient

/-- A transport, by the files its certificates were read from and the URL of its proxy. -/
structure Transport (υ : Type) where
  certificates : Option (Bytes × Bytes) := none
  rootCAs : Option Bytes := none
  insecureSkipVerify : Bool
  proxy : Option υ := none
  deriving DecidableEq

/-- Which files can be loaded at the moment. -/
structure Files where
  keyPair : Bytes → Bytes → Bool := fun _ _ => true
  ca : Bytes → Bool := fun _ => true

inductive TransportError where
  | keyPair (certFile keyFile : Bytes)
  | ca (caFile : Bytes)
  deriving DecidableEq

def HttpClientOption.enabledTLS (opts : HttpClientOption) : Option TLSOptions :=
  opts.tlsOptions.filter (·.enabled)

def HttpClientOption.validProxies (opts : HttpClientOption) : Option Proxies :=
  opts.proxies.filter (·.valid)

def poolKey (opts : HttpClientOption) : Bytes :=
  let key := asciiBytes "tr-inst"
  let key :=
    match opts.enabledTLS with
    | none => key
    | some tls =>
      let key := if tls.hasKeyPair then join [key, tls.certFile, tls.keyFile] "-" else key
      if tls.caFile ≠ [] then join [key, tls.caFile] "-" else key
  match opts.validProxies with
  | none => key
  | some proxies => key ++ asciiBytes "-" ++ proxies.getProxyURL

/-- The TLS side of a new transport. -/
def tlsConfig {υ : Type} (opts : HttpClientOption) (files : Files) :
    Except TransportError (Transport υ) :=
  match opts.enabledTLS with
  | none => .ok { insecureSkipVerify := true }
  | some tls => do
    let certificates ←
      if tls.hasKeyPair then
        if files.keyPair tls.certFile tls.keyFile then .ok (some (tls.certFile, tls.keyFile))
        else .error (.keyPair tls.certFile tls.keyFile)
      else .ok none
    let rootCAs ←
      if tls.caFile ≠ [] then
        if files.ca tls.caFile then .ok (some tls.caFile) else .error (.ca tls.caFile)
      else .ok none
    .ok { certificates, rootCAs, insecureSkipVerify := tls.skipVerify }

section pool

-- the URL of a proxy, none if it cannot be parsed
variable {υ : Type} (parse : Bytes → Option υ)

def newTransport (opts : HttpClientOption) (files : Files) :
    Except TransportError (Transport υ) := do
  let tr ← tlsConfig opts files
  match opts.validProxies with
  | none => .ok tr
  | some proxies => .ok { tr with proxy := parse proxies.getProxyURL }

def set (pool : GoMap Bytes (Transport υ)) (key : Bytes) (opts : HttpClientOption) (files : Files) :
    GoMap Bytes (Transport υ) × Except TransportError (Transport υ) :=
  match newTransport parse opts files with
  | .error e => (pool, .error e)
  | .ok tr => (pool.store key tr, .ok tr)

def get (pool : GoMap Bytes (Transport υ)) (opts : HttpClientOption) (files : Files) :
    GoMap Bytes (Transport υ) × Except TransportError (Transport υ) :=
  let key := poolKey opts
  match pool key with
  | none => set parse pool key opts files
  | some tr => (pool, .ok tr)

/-- Calls one after the other, each with the files there are at its time, and their answers. -/
def gets (pool : GoMap Bytes (Transport υ)) :
    List (HttpClientOption × Files) → List (HttpClientOption × Except TransportError (Transport υ))
  | [] => []
  | call :: calls =>
    (call.1, (get parse pool call.1 call.2).2) :: gets (get parse pool call.1 call.2).1 calls

/-- The transport that belongs to an option set. -/
def ownTransport (opts : HttpClientOption) : Transport υ where
  certificates := opts.enabledTLS.bind fun tls =>
    if tls.hasKeyPair then some (tls.certFile, tls.keyFile) else none
  rootCAs := opts.enabledTLS.bind fun tls => if tls.caFile ≠ [] then some tls.caFile else none
  insecureSkipVerify := (opts.enabledTLS.map (·.skipVerify)).getD true
  proxy := opts.validProxies.bind fun proxies => parse proxies.getProxyURL

/-- Its files can be loaded. -/
def Loads (opts : HttpClientOption) (files : Files) : Prop :=
  ∀ tls ∈ opts.enabledTLS, (tls.hasKeyPair → files.keyPair tls.certFile tls.keyFile) ∧
    (tls.caFile ≠ [] → files.ca tls.caFile)

/-- The names an option set uses: its key pair, its CA file and its proxy. -/
def names (opts : HttpClientOption) : List Bytes :=
  (opts.enabledTLS.elim [] fun tls =>
    (if tls.hasKeyPair then [tls.certFile, tls.keyFile] else []) ++
      if tls.caFile ≠ [] then [tls.caFile] else []) ++
    opts.validProxies.elim [] fun proxies => [proxies.getProxyURL]

/-- They are told apart by the dashes in front of them only. -/
def dashed (names : List Bytes) : Bytes := names.flatMap (asciiBytes "-" ++ ·)

theorem poolKey_eq (opts : HttpClientOption) :
    poolKey opts = asciiBytes "tr-inst" ++ dashed (names opts) := by
  rw [poolKey, names, dashed]
  cases opts.enabledTLS with
  | none => cases opts.validProxies <;> simp
  | some tls =>
    cases opts.validProxies <;>
      by_cases hpair : tls.hasKeyPair <;> by_cases hca : tls.caFile = [] <;>
        simp [hpair, hca, join, List.intercalate]

theorem tlsConfig_cases (opts : HttpClientOption) (files : Files) :
    (Loads opts files ∧
        tlsConfig opts files = .ok { ownTransport parse opts with proxy := (none : Option υ) }) ∨
      (¬ Loads opts files ∧ ∃ e, (tlsConfig opts files : Except _ (Transport υ)) = .error e) := by
  rw [tlsConfig, Loads, ownTransport]
  cases opts.enabledTLS with
  | none => exact .inl ⟨fun tls h => absurd h (by simp), rfl⟩
  | some tls =>
    by_cases hpair : tls.hasKeyPair <;> by_cases hca : tls.caFile = [] <;>
      cases hkeys : files.keyPair tls.certFile tls.keyFile <;> cases hcas : files.ca tls.caFile <;>
        simp [hpair, hca, hkeys, hcas, bind, Except.bind]

theorem newTransport_cases (opts : HttpClientOption) (files : Files) :
    (Loads opts files ∧ newTransport parse opts files = .ok (ownTransport parse opts)) ∨
      (¬ Loads opts files ∧ ∃ e, newTransport parse opts files = .error e) := by
  rcases tlsConfig_cases parse opts files with ⟨hloads, hok⟩ | ⟨hnot, e, herror⟩
  · refine .inl ⟨hloads, ?_⟩
    rw [newTransport, hok, ownTransport]
    cases opts.validProxies <;> rfl
  · refine .inr ⟨hnot, e, ?_⟩
    rw [newTransport, herror]
    rfl

/-- The pool is one of built values. -/
theorem get_eq (pool : GoMap Bytes (Transport υ)) (call : HttpClientOption × Files) :
    get parse pool call.1 call.2 =
      MemoPools.get (fun c => poolKey c.1) (fun c => newTransport parse c.1 c.2) pool call := by
  rw [get, MemoPools.get]
  cases pool (poolKey call.1) with
  | some tr => rfl
  | none =>
    rw [set]
    cases newTransport parse call.1 call.2 <;> rfl

theorem gets_eq (pool : GoMap Bytes (Transport υ)) (calls : List (HttpClientOption × Files)) :
    gets parse pool calls = (MemoPools.answers (fun c => poolKey c.1)
      (fun c => newTransport parse c.1 c.2) pool calls).map fun a => (a.1.1, a.2) := by
  induction calls generalizing pool with
  | nil => rfl
  | cons call calls ih => rw [gets, get_eq, ih, MemoPools.answers, List.map_cons]

/-- Every transport handed out is the one of its option set exactly when no option set that could be
built is followed by one of the same dashed names with another transport. -/
theorem gets_own_iff (calls : List (HttpClientOption × Files)) :
    (∀ answer ∈ gets parse GoMap.empty calls, ∀ tr, answer.2 = .ok tr →
      tr = ownTransport parse answer.1) ↔
      calls.Pairwise fun c d => dashed (names c.1) = dashed (names d.1) → Loads c.1 c.2 →
        ownTransport parse c.1 = ownTransport parse d.1 := by
  have hmade : ∀ (c : HttpClientOption × Files) (tr : Transport υ),
      newTransport parse c.1 c.2 = .ok tr → tr = ownTransport parse c.1 := by
    intro c tr htr
    rcases newTransport_cases parse c.1 c.2 with ⟨-, hok⟩ | ⟨-, e, herror⟩
    · exact Except.ok.inj (htr.symm.trans hok)
    · exact absurd (htr.symm.trans herror) (by simp)
  have hloads : ∀ c : HttpClientOption × Files,
      (∃ tr, newTransport parse c.1 c.2 = .ok tr) ↔ Loads c.1 c.2 := by
    intro c
    rcases newTransport_cases parse c.1 c.2 with ⟨h, hok⟩ | ⟨hnot, e, herror⟩
    · exact ⟨fun _ => h, fun _ => ⟨_, hok⟩⟩
    · exact ⟨fun ⟨tr, htr⟩ => absurd (htr.symm.trans herror) (by simp), fun h => absurd h hnot⟩
  rw [gets_eq, List.forall_mem_map, MemoPools.answers_own_iff hmade]
  simp only [hloads, poolKey_eq, List.append_cancel_left_eq, GoMap.empty_apply, reduceCtorEq,
    false_implies, implies_true, true_and]

end pool

/-- TLS that verifies the server. -/
def verifying : HttpClientOption := { tlsOptions := some { enabled := true } }

/-- After a query without TLS options, TLS that should verify the server does not. -/
theorem gets_verifying_after_plain :
    (gets some GoMap.empty [({}, {}), (verifying, {})]).map Prod.snd =
        [.ok { insecureSkipVerify := true }, .ok { insecureSkipVerify := true }] ∧
      (ownTransport some verifying).insecureSkipVerify = false := ⟨rfl, rfl⟩

end HttpClient
end Gocom
