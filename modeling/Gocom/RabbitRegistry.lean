import Gocom.GuardedRuns
import Gocom.RabbitPublishRuns
import Gocom.SshTunnelDsn

/-!
# The registry of RabbitMQ instances

An instance is registered under its name before it is initialised, and stays there when this fails.
The next call for the name with an equal queue configuration returns it as if it ran, whatever the
configuration of its connection has become.
-/

namespace Gocom

/-- `Equals`: the connection's name and the removal of unused queues are not compared. -/
def AMQPConfig.equals (me other : AMQPConfig) : Bool :=
  me.queue == other.queue && me.queueDurable == other.queueDurable &&
    me.bindingExchange == other.bindingExchange && me.exchangeName == other.exchangeName &&
    me.exchangeType == other.exchangeType && me.bindingKey == other.bindingKey

theorem AMQPConfig.equals_self (cfg : AMQPConfig) : cfg.equals cfg = true := by
  simp [equals]

/-- What an instance needs to find its broker. -/
structure MQConnectorConfig where
  driver : String := "rabbitmq"
  host : String := ""
  port : ℤ := 0
  path : String := ""
  user : String := ""
  password : String := ""
  sshTunnelDSN : String := ""

/-- Why an instance cannot be initialised: its driver is not the one of RabbitMQ, or the address of
its broker cannot be formed. -/
inductive InitError where
  | invalidDriver
  | noAddress
deriving DecidableEq

variable {σ : Type*}

namespace RabbitMQ

/-- The result of `init`. Only these errors are returned; those of the channel and the queue are
logged. -/
def initError (b : Broker σ) (r : RabbitMQ σ) : Option InitError :=
  if r.driver ≠ "rabbitmq" then some .invalidDriver
  else
    match (b.connect r.env).2 with
    | .noAddress => some .noAddress
    | .noChannel | .ready => none

def init (b : Broker σ) (r : RabbitMQ σ) : RabbitMQ σ × Option InitError :=
  (initConn b r, initError b r)

/-- The connection can be set up as far as `init` tells. -/
def Initialises (b : Broker σ) (env : σ) (driver : String) : Prop :=
  driver = "rabbitmq" ∧ (b.connect env).2 ≠ .noAddress

theorem initError_eq_none_iff (b : Broker σ) (r : RabbitMQ σ) :
    initError b r = none ↔ Initialises b r.env r.driver := by
  rw [initError, Initialises]
  by_cases hdriver : r.driver = "rabbitmq"
  · rw [if_neg (not_not.mpr hdriver)]
    cases (b.connect r.env).2 <;> simp [hdriver]
  · rw [if_pos hdriver]
    simp [hdriver]

/-- An instance that is not initialised keeps its queue configuration. -/
theorem initConn_config_of_error {b : Broker σ} {r : RabbitMQ σ}
    (h : ¬ Initialises b r.env r.driver) : (initConn b r).config = r.config := by
  rw [initConn]
  split_ifs with hdriver
  · rfl
  · cases hconnect : b.connect r.env with
    | mk env dial =>
      cases dial with
      | noAddress => rfl
      | noChannel | ready =>
        refine absurd ⟨not_not.mp hdriver, fun hnone => ?_⟩ h
        rw [hconnect] at hnone
        cases hnone

end RabbitMQ

/-- An instance, its connection's configuration, and whether its `Run` has been started. -/
structure RegisteredRabbit (σ : Type*) where
  connConfig : MQConnectorConfig
  rabbit : RabbitMQ σ
  running : Bool

/-- The registry, and what new instances take from the process. -/
structure RabbitRegistry (σ : Type*) where
  env : σ
  jinDie : Bool := false
  trackerQueue : String := ""
  messages : ℕ → MQPublishMessage
  amqpInsts : GoMap String (RegisteredRabbit σ) := .empty

namespace RabbitRegistry

variable (b : MQConnectorConfig → Broker σ)

/-- Register a new instance and initialise it; it runs if this succeeds. The registry holds a
pointer, so it sees what initialising does. -/
def create (s : RabbitRegistry σ) (mqConnName : String) (connCfg : MQConnectorConfig)
    (amqpCfg : AMQPConfig) : RabbitRegistry σ × Except InitError (RegisteredRabbit σ) :=
  let (rabbit, err) := (RabbitMQ.newRabbitMQ s.env amqpCfg connCfg.driver s.jinDie s.trackerQueue
    s.messages).init (b connCfg)
  let inst : RegisteredRabbit σ := ⟨connCfg, rabbit, err.isNone⟩
  let s := { s with env := rabbit.env, amqpInsts := s.amqpInsts.store mqConnName inst }
  match err with
  | none => (s, .ok inst)
  | some err => (s, .error err)

/-- An instance with another queue configuration is closed and forgotten. -/
def initRabbitMQ (s : RabbitRegistry σ) (mqConnName : String) (connCfg : MQConnectorConfig)
    (amqpCfg : AMQPConfig) : RabbitRegistry σ × Except InitError (RegisteredRabbit σ) :=
  match s.amqpInsts mqConnName with
  | none => s.create b mqConnName connCfg amqpCfg
  | some inst =>
    if inst.rabbit.config.equals amqpCfg then (s, .ok inst)
    else s.create b mqConnName connCfg amqpCfg

/-! ## What a call does -/

variable {b} {s : RabbitRegistry σ} {mqConnName : String} {connCfg : MQConnectorConfig}
  {amqpCfg : AMQPConfig}

/-- A registered instance answers the call. -/
def Answered (s : RabbitRegistry σ) (mqConnName : String) (amqpCfg : AMQPConfig) : Prop :=
  ∃ inst, s.amqpInsts mqConnName = some inst ∧ inst.rabbit.config.equals amqpCfg = true

theorem initRabbitMQ_of_equals {inst : RegisteredRabbit σ}
    (hinst : s.amqpInsts mqConnName = some inst)
    (hequals : inst.rabbit.config.equals amqpCfg = true) :
    s.initRabbitMQ b mqConnName connCfg amqpCfg = (s, .ok inst) := by
  rw [initRabbitMQ, hinst]
  exact if_pos hequals

theorem initRabbitMQ_of_not_answered (h : ¬ Answered s mqConnName amqpCfg) :
    s.initRabbitMQ b mqConnName connCfg amqpCfg = s.create b mqConnName connCfg amqpCfg := by
  rw [initRabbitMQ]
  cases hinst : s.amqpInsts mqConnName with
  | none => rfl
  | some inst => exact if_neg fun hequals => h ⟨inst, hinst, hequals⟩

/-- A new instance is registered whether or not it is initialised. -/
structure Created (b : MQConnectorConfig → Broker σ) (s : RabbitRegistry σ) (mqConnName : String)
    (connCfg : MQConnectorConfig) (amqpCfg : AMQPConfig) (inst : RegisteredRabbit σ) : Prop where
  amqpInsts : (s.create b mqConnName connCfg amqpCfg).1.amqpInsts =
    s.amqpInsts.store mqConnName inst
  connConfig : inst.connConfig = connCfg
  initialised : RabbitMQ.Initialises (b connCfg) s.env connCfg.driver →
    (s.create b mqConnName connCfg amqpCfg).2 = .ok inst ∧ inst.running = true
  failed : ¬ RabbitMQ.Initialises (b connCfg) s.env connCfg.driver →
    (∃ err, (s.create b mqConnName connCfg amqpCfg).2 = .error err) ∧ inst.running = false ∧
      inst.rabbit.config = amqpCfg

theorem create_eq {r : RabbitMQ σ} (hr : RabbitMQ.newRabbitMQ s.env amqpCfg connCfg.driver s.jinDie
    s.trackerQueue s.messages = r) :
    s.create b mqConnName connCfg amqpCfg =
      ({ s with
          env := (RabbitMQ.initConn (b connCfg) r).env
          amqpInsts := s.amqpInsts.store mqConnName ⟨connCfg, RabbitMQ.initConn (b connCfg) r,
            (RabbitMQ.initError (b connCfg) r).isNone⟩ },
        (RabbitMQ.initError (b connCfg) r).elim
          (.ok ⟨connCfg, RabbitMQ.initConn (b connCfg) r,
            (RabbitMQ.initError (b connCfg) r).isNone⟩) .error) := by
  rw [create, hr, RabbitMQ.init]
  cases RabbitMQ.initError (b connCfg) r <;> rfl

theorem exists_created (b : MQConnectorConfig → Broker σ) (s : RabbitRegistry σ)
    (mqConnName : String) (connCfg : MQConnectorConfig) (amqpCfg : AMQPConfig) :
    ∃ inst, Created b s mqConnName connCfg amqpCfg inst := by
  obtain ⟨r, hr⟩ : ∃ r : RabbitMQ σ, RabbitMQ.newRabbitMQ s.env amqpCfg connCfg.driver s.jinDie
    s.trackerQueue s.messages = r := ⟨_, rfl⟩
  have henv : r.env = s.env ∧ r.driver = connCfg.driver ∧ r.config = amqpCfg := by
    rw [← hr]
    exact ⟨rfl, rfl, rfl⟩
  have hcreate : s.create b mqConnName connCfg amqpCfg = _ := create_eq hr
  refine ⟨_, by rw [hcreate], rfl, fun hok => ?_, fun hfails => ?_⟩
  · rw [← henv.1, ← henv.2.1, ← RabbitMQ.initError_eq_none_iff] at hok
    rw [hcreate, hok]
    exact ⟨rfl, rfl⟩
  · rw [← henv.1, ← henv.2.1] at hfails
    have hconfig := RabbitMQ.initConn_config_of_error hfails
    rw [← RabbitMQ.initError_eq_none_iff] at hfails
    obtain ⟨err, herr⟩ := Option.ne_none_iff_exists'.mp hfails
    rw [hcreate, herr]
    exact ⟨⟨err, rfl⟩, rfl, hconfig.trans henv.2.2⟩

/-- The condition under which a call returns no error. -/
def Succeeds (b : MQConnectorConfig → Broker σ) (s : RabbitRegistry σ) (mqConnName : String)
    (connCfg : MQConnectorConfig) (amqpCfg : AMQPConfig) : Prop :=
  Answered s mqConnName amqpCfg ∨ RabbitMQ.Initialises (b connCfg) s.env connCfg.driver

/-- A call without error. -/
theorem Succeeds.ok (h : Succeeds b s mqConnName connCfg amqpCfg) :
    ∃ inst, (s.initRabbitMQ b mqConnName connCfg amqpCfg).2 = .ok inst := by
  by_cases hanswered : Answered s mqConnName amqpCfg
  · obtain ⟨inst, hinst, hequals⟩ := hanswered
    exact ⟨inst, by rw [initRabbitMQ_of_equals hinst hequals]⟩
  · obtain ⟨inst, hcreated⟩ := exists_created b s mqConnName connCfg amqpCfg
    rw [initRabbitMQ_of_not_answered hanswered]
    exact ⟨inst, (hcreated.initialised (h.resolve_left hanswered)).1⟩

/-- A call with an error leaves an instance that does not run and has the queue configuration of
the call. -/
theorem exists_broken (h : ¬ Succeeds b s mqConnName connCfg amqpCfg) :
    ∃ err inst, (s.initRabbitMQ b mqConnName connCfg amqpCfg).2 = .error err ∧
      (s.initRabbitMQ b mqConnName connCfg amqpCfg).1.amqpInsts =
        s.amqpInsts.store mqConnName inst ∧
      inst.running = false ∧ inst.rabbit.config = amqpCfg := by
  obtain ⟨hanswered, hfails⟩ := not_or.mp h
  obtain ⟨inst, hcreated⟩ := exists_created b s mqConnName connCfg amqpCfg
  obtain ⟨⟨err, herr⟩, hrunning, hconfig⟩ := hcreated.failed hfails
  rw [initRabbitMQ_of_not_answered hanswered]
  exact ⟨err, inst, herr, hcreated.amqpInsts, hrunning, hconfig⟩

/-- After an error, a call with an equal queue configuration returns the instance that does not run,
whatever the configuration of its connection. -/
theorem initRabbitMQ_after_error {amqpCfg' : AMQPConfig}
    (h : ¬ Succeeds b s mqConnName connCfg amqpCfg) (hequals : amqpCfg.equals amqpCfg' = true)
    (connCfg' : MQConnectorConfig) :
    ∃ inst, ((s.initRabbitMQ b mqConnName connCfg amqpCfg).1.initRabbitMQ b mqConnName connCfg'
      amqpCfg').2 = .ok inst ∧ inst.running = false := by
  obtain ⟨err, inst, -, hinsts, hrunning, hconfig⟩ := exists_broken h
  have hinst : (s.initRabbitMQ b mqConnName connCfg amqpCfg).1.amqpInsts mqConnName =
      some inst := by
    rw [hinsts]
    exact GoMap.store_self _ _ _
  exact ⟨inst, by rw [initRabbitMQ_of_equals hinst (by rw [hconfig, hequals])], hrunning⟩

/-- If the call returns an error then the registry has no instance for the name that was not there
before, and a later call with another configuration of the connection initialises one. -/
structure LeavesNoInstance (b : MQConnectorConfig → Broker σ) (s : RabbitRegistry σ)
    (mqConnName : String) (connCfg : MQConnectorConfig) (amqpCfg : AMQPConfig) : Prop where
  entries : ∀ err, (s.initRabbitMQ b mqConnName connCfg amqpCfg).2 = .error err →
    ∀ inst, (s.initRabbitMQ b mqConnName connCfg amqpCfg).1.amqpInsts mqConnName = some inst →
      s.amqpInsts mqConnName = some inst
  corrected : ∀ err, (s.initRabbitMQ b mqConnName connCfg amqpCfg).2 = .error err →
    ∀ connCfg', RabbitMQ.Initialises (b connCfg')
        (s.initRabbitMQ b mqConnName connCfg amqpCfg).1.env connCfg'.driver →
      ∃ inst, ((s.initRabbitMQ b mqConnName connCfg amqpCfg).1.initRabbitMQ b mqConnName connCfg'
        amqpCfg).2 = .ok inst ∧ inst.connConfig = connCfg' ∧ inst.running = true

/-- In every registry, a call leaves no instance behind exactly when it returns no error. -/
theorem leavesNoInstance_iff (b : MQConnectorConfig → Broker σ) (s : RabbitRegistry σ)
    (mqConnName : String) (connCfg : MQConnectorConfig) (amqpCfg : AMQPConfig) :
    LeavesNoInstance b s mqConnName connCfg amqpCfg ↔ Succeeds b s mqConnName connCfg amqpCfg := by
  constructor
  · intro h
    by_contra hfails
    obtain ⟨err, inst, herr, hinsts, -, hconfig⟩ := exists_broken hfails
    have hbefore : s.amqpInsts mqConnName = some inst := by
      refine h.entries err herr inst ?_
      rw [hinsts]
      exact GoMap.store_self _ _ _
    -- an instance with this configuration would have answered the call
    exact hfails (.inl ⟨inst, hbefore, by rw [hconfig, AMQPConfig.equals_self]⟩)
  · intro h
    obtain ⟨inst, hok⟩ := h.ok
    have hnot : ∀ err, (s.initRabbitMQ b mqConnName connCfg amqpCfg).2 ≠ .error err := by
      intro err herr
      cases hok.symm.trans herr
    exact ⟨fun err herr => absurd herr (hnot err), fun err herr => absurd herr (hnot err)⟩

/-- A broker that cannot be reached without a tunnel. Its address is formed unless the connection string
of a tunnel is refused. -/
def tunnelledBroker (connCfg : MQConnectorConfig) : Broker (List Dial) :=
  { RabbitMQ.scriptedBroker with
    connect := fun script => (script,
      if connCfg.sshTunnelDSN = "" ∨ (TunnelForwarder.parseFromDSN asciiLower id {}
        (asciiBytes connCfg.sshTunnelDSN)).1 = none then .ready else .noAddress) }

/-- A connection string whose port is no number leaves its instance behind. -/
theorem brokenTunnel_left_behind :
    ¬ LeavesNoInstance tunnelledBroker { env := [], messages := fun _ => {} } "orders"
      { sshTunnelDSN := "h:x" } { queue := "orders" } := by
  intro h
  have hbefore := h.entries .noAddress rfl _ rfl
  cases hbefore

/-! ## Runs -/

structure InitCall where
  mqConnName : String
  connCfg : MQConnectorConfig
  amqpCfg : AMQPConfig

/-- One call after the other. -/
def call (b : MQConnectorConfig → Broker σ) (s : RabbitRegistry σ) (c : InitCall) :
    RabbitRegistry σ := (s.initRabbitMQ b c.mqConnName c.connCfg c.amqpCfg).1

def AllRunning (s : RabbitRegistry σ) : Prop :=
  ∀ mqConnName inst, s.amqpInsts mqConnName = some inst → inst.running = true

theorem succeeds_iff_allRunning (h : AllRunning s) (c : InitCall) :
    Succeeds b s c.mqConnName c.connCfg c.amqpCfg ↔ AllRunning (s.call b c) := by
  rw [call]
  constructor
  · intro hsucceeds
    by_cases hanswered : Answered s c.mqConnName c.amqpCfg
    · obtain ⟨inst, hinst, hequals⟩ := hanswered
      rw [initRabbitMQ_of_equals hinst hequals]
      exact h
    · obtain ⟨inst, hcreated⟩ := exists_created b s c.mqConnName c.connCfg c.amqpCfg
      obtain ⟨-, hrunning⟩ := hcreated.initialised (hsucceeds.resolve_left hanswered)
      rw [initRabbitMQ_of_not_answered hanswered]
      intro name inst' hinst'
      rw [hcreated.amqpInsts] at hinst'
      obtain ⟨-, rfl⟩ | ⟨-, hold⟩ := GoMap.of_store_eq_some hinst'
      · exact hrunning
      · exact h name inst' hold
  · intro hall
    by_contra hfails
    obtain ⟨err, inst, -, hinsts, hrunning, -⟩ := exists_broken hfails
    have hbroken := hall c.mqConnName inst (by rw [hinsts]; exact GoMap.store_self _ _ _)
    rw [hrunning] at hbroken
    cases hbroken

/-- All registered instances run throughout a run of calls exactly when none of the calls returns
an error. -/
theorem run_allRunning_iff {t : RabbitRegistry σ} {calls : List InitCall} (h : AllRunning s)
    (hr : Runs.run (Runs.total (call b)) s calls = some t) :
    (∀ past rest u, calls = past ++ rest → Runs.run (Runs.total (call b)) s past = some u →
        AllRunning u) ↔
      Runs.Throughout (Runs.total (call b))
        (fun s c => Succeeds b s c.mqConnName c.connCfg c.amqpCfg) s calls := by
  have hstep : ∀ u c v, True → AllRunning u → Runs.total (call b) u c = some v →
      (Succeeds b u c.mqConnName c.connCfg c.amqpCfg ↔ AllRunning v) := by
    rintro u c v - hu hv
    rw [← Option.some.inj hv]
    exact succeeds_iff_allRunning hu c
  exact (Runs.throughout_iff_always (fun _ _ _ _ _ => trivial) hstep trivial h hr).symm

end RabbitRegistry
end Gocom
