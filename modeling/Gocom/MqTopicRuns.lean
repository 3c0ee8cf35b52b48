import Gocom.MqRoutes

/-!
# Where messages go

What a topic is asked to be is said by the last call that initialised it without an error; a call with
an error asks for nothing. Messages that are published, consumed or queried under a category should go
to what the topic was asked to be.
-/

namespace Gocom

open Runs

namespace MQSink

def driver : MQSink → MQDriver
  | .rabbit _ | .rpc _ => .amqp
  | .kafka _ => .kafka
  | .pulsar _ => .pulsar
  | .mock _ => .mock

def isRpc : MQSink → Bool
  | .rpc _ => true
  | .rabbit _ | .kafka _ | .pulsar _ | .mock _ => false

/-- What a consumer of the mock has to name. -/
def topic : MQSink → String
  | .mock topic => topic
  | .rabbit _ | .rpc _ | .kafka _ | .pulsar _ => ""

/-- A route leads to the sink as far as routes are looked at. -/
def Fits (cfg : MQConfig) : MQSink → Prop
  | .rabbit _ => cfg.rpcEnabled = false
  | .rpc _ => cfg.rpcEnabled = true
  | .mock topic => cfg.topic = topic
  | .kafka _ | .pulsar _ => True

end MQSink

/-- What a topic was asked to be, and the connection it names. -/
structure AskedTopic where
  instanceName : String
  sink : MQSink

namespace MQRoutes

variable {s t u : MQRoutes} {category : String}

/-- The driver has the instance. -/
def Holds (s : MQRoutes) (category : String) : MQSink → Prop
  | .rabbit inst => s.amqpInsts category = some inst
  | .rpc inst => s.amqpRpcs category = some inst
  | .kafka cfg => s.kafkaInstances category = some cfg
  | .pulsar inst => s.pulsarInsts category = some inst
  | .mock _ => s.mockInstances category = some ()

/-- The route, the driver and the instance of the category agree on the sink. -/
def Routed (s : MQRoutes) (category : String) (sink : MQSink) : Prop :=
  (∃ cfg, s.mqRoutesEnv category = some cfg ∧ sink.Fits cfg) ∧ s.driverOf category = some sink.driver ∧
    s.Holds category sink

theorem publishMQ_eq_ok_iff {sink : MQSink} :
    s.publishMQ true category = .ok sink ↔ s.Routed category sink := by
  rw [publishMQ, getMQConfig, Routed]
  cases s.mqRoutesEnv category with
  | none => simp
  | some cfg =>
    cases s.driverOf category with
    | none => simp
    | some driver =>
      cases driver with
      | amqp =>
        cases hrpc : cfg.rpcEnabled with
        | false => cases hi : s.amqpInsts category <;> cases sink <;> simp [MQSink.driver, MQSink.Fits, Holds, hi, hrpc]
        | true => cases hi : s.amqpRpcs category <;> cases sink <;> simp [MQSink.driver, MQSink.Fits, Holds, hi, hrpc]
      | kafka => cases hi : s.kafkaInstances category <;> cases sink <;> simp [MQSink.driver, MQSink.Fits, Holds, hi]
      | pulsar => cases hi : s.pulsarInsts category <;> cases sink <;> simp [MQSink.driver, MQSink.Fits, Holds, hi]
      | mock => cases hi : s.mockInstances category <;> cases sink <;> simp [MQSink.driver, MQSink.Fits, Holds, hi]

theorem consumeMQ_of_routed {sink : MQSink} (h : s.Routed category sink) :
    s.consumeMQ category sink.topic = .ok sink := by
  obtain ⟨⟨cfg, hcfg, hfits⟩, hdriver, hholds⟩ := h
  cases sink <;> simp_all [consumeMQ, getMQConfig, MQSink.driver, MQSink.Fits, MQSink.topic, Holds]

theorem queryMQ_of_routed {sink : MQSink} (h : s.Routed category sink) (hrpc : sink.isRpc = false) :
    s.queryMQ category = .ok sink := by
  obtain ⟨⟨cfg, hcfg, hfits⟩, hdriver, hholds⟩ := h
  cases sink <;> simp_all [queryMQ, getMQConfig, MQSink.driver, MQSink.Fits, MQSink.isRpc, Holds]

/-- Messages of the category go where the topic was asked to send them. Queries of a topic for RPC go
elsewhere. -/
structure Reaches (s : MQRoutes) (category : String) (a : AskedTopic) : Prop where
  publish : s.publishMQ true category = .ok a.sink
  consume : s.consumeMQ category a.sink.topic = .ok a.sink
  query : a.sink.isRpc = false → s.queryMQ category = .ok a.sink
  listed : category ∈ s.getAllCategoryNamesByInstance a.instanceName

theorem reaches_iff {a : AskedTopic} : s.Reaches category a ↔
    s.Routed category a.sink ∧ category ∈ s.getAllCategoryNamesByInstance a.instanceName := by
  refine ⟨fun h => ⟨publishMQ_eq_ok_iff.mp h.publish, h.listed⟩, fun ⟨hrouted, hlisted⟩ => ?_⟩
  exact ⟨publishMQ_eq_ok_iff.mpr hrouted, consumeMQ_of_routed hrouted, queryMQ_of_routed hrouted, hlisted⟩

/-! ## What stays -/

/-- Nothing changes for the category. -/
structure SameAt (s t : MQRoutes) (category : String) : Prop where
  route : t.mqRoutesEnv category = s.mqRoutesEnv category
  driver : t.mqCategoryDrivers category = s.mqCategoryDrivers category
  rabbit : t.amqpInsts category = s.amqpInsts category
  rpc : t.amqpRpcs category = s.amqpRpcs category
  kafka : t.kafkaInstances category = s.kafkaInstances category
  pulsar : t.pulsarInsts category = s.pulsarInsts category
  mock : t.mockInstances category = s.mockInstances category
  listed : ∀ instanceName, category ∈ t.getAllCategoryNamesByInstance instanceName ↔
    category ∈ s.getAllCategoryNamesByInstance instanceName

theorem SameAt.refl (s : MQRoutes) (category : String) : SameAt s s category :=
  ⟨rfl, rfl, rfl, rfl, rfl, rfl, rfl, fun _ => Iff.rfl⟩

theorem SameAt.trans (h : SameAt s t category) (h' : SameAt t u category) : SameAt s u category :=
  ⟨h'.route.trans h.route, h'.driver.trans h.driver, h'.rabbit.trans h.rabbit, h'.rpc.trans h.rpc,
    h'.kafka.trans h.kafka, h'.pulsar.trans h.pulsar, h'.mock.trans h.mock, fun i => (h'.listed i).trans (h.listed i)⟩

theorem SameAt.holds_iff (h : SameAt s t category) (sink : MQSink) : t.Holds category sink ↔ s.Holds category sink := by
  cases sink with
  | rabbit inst => rw [Holds, Holds, h.rabbit]
  | rpc inst => rw [Holds, Holds, h.rpc]
  | kafka cfg => rw [Holds, Holds, h.kafka]
  | pulsar inst => rw [Holds, Holds, h.pulsar]
  | mock topic => rw [Holds, Holds, h.mock]

theorem SameAt.reaches_iff (h : SameAt s t category) (a : AskedTopic) : t.Reaches category a ↔ s.Reaches category a := by
  rw [MQRoutes.reaches_iff, MQRoutes.reaches_iff, Routed, Routed, h.route, driverOf, driverOf, h.driver, h.holds_iff,
    h.listed]

/-- The instances stay. -/
structure SameInstances (s t : MQRoutes) : Prop where
  amqpInsts : t.amqpInsts = s.amqpInsts
  amqpRpcs : t.amqpRpcs = s.amqpRpcs
  kafkaInstances : t.kafkaInstances = s.kafkaInstances
  pulsarInsts : t.pulsarInsts = s.pulsarInsts
  mockInstances : t.mockInstances = s.mockInstances

theorem SameInstances.holds_iff (h : SameInstances s t) (sink : MQSink) :
    t.Holds category sink ↔ s.Holds category sink := by
  cases sink with
  | rabbit inst => rw [Holds, Holds, h.amqpInsts]
  | rpc inst => rw [Holds, Holds, h.amqpRpcs]
  | kafka cfg => rw [Holds, Holds, h.kafkaInstances]
  | pulsar inst => rw [Holds, Holds, h.pulsarInsts]
  | mock topic => rw [Holds, Holds, h.mockInstances]

/-- What a topic is asked to be. A topic for RPC has to be initialised in another way. -/
def wanted (cfg : MQConfig) (instCnf : MQConnectorConfig) : Option MQSink :=
  match mqDriver? instCnf.driver with
  | some .amqp => if cfg.rpcEnabled then none else some (.rabbit ⟨instCnf, cfg.amqpConfig cfg.instanceName, true⟩)
  | some .kafka => some (.kafka (cfg.kafkaConfig instCnf))
  | some .pulsar => some (.pulsar ⟨instCnf, cfg.pulsarConfig, true⟩)
  | some .mock => some (.mock cfg.topic)
  | none => none

end MQRoutes

/-- The maps, and what each topic was asked to be. -/
structure MQTopics where
  mqs : MQRoutes := {}
  asked : GoMap String AskedTopic := .empty

inductive TopicEvent where
  /-- Routes are read from a file, or one is set. -/
  | loadRoutes (loaded : List (String × MQConfig))
  | addConnConfig (connName : String) (cfg : MQConnectorConfig)
  | initMQTopic (topicCategory : String) (topicConfig : Option MQConfig)
      (mqDriverConfigs : GoMap String MQConnectorConfig) (initErr : Option String)
  | initMQWithRPC (topicCategory : String) (rpcType : ℤ) (connCfg : Option MQConnectorConfig)
      (mqCfg : Option MQConfig)
  | stopKafka (mqConnName : String)

namespace MQTopics

variable {t : MQTopics} {category : String}

/-- A call without an error asks. -/
def ask (asked : GoMap String AskedTopic) (category instanceName : String) (sink : Option MQSink)
    (err : Option String) : GoMap String AskedTopic :=
  match sink, err with
  | some sink, none => asked.store category ⟨instanceName, sink⟩
  | _, _ => asked

def initMQTopic (t : MQTopics) (topicCategory : String) (topicConfig : Option MQConfig)
    (mqDriverConfigs : GoMap String MQConnectorConfig) (initErr : Option String) : MQTopics :=
  let (mqs, err) := t.mqs.initMQTopic topicCategory topicConfig mqDriverConfigs initErr
  match topicConfig with
  | none => { t with mqs }
  | some cfg =>
    { mqs
      asked := ask t.asked topicCategory cfg.instanceName
        ((t.mqs.connOf mqDriverConfigs cfg.instanceName).bind (MQRoutes.wanted cfg)) err }

def initMQWithRPC (t : MQTopics) (topicCategory : String) (rpcType : ℤ) (connCfg : Option MQConnectorConfig)
    (mqCfg : Option MQConfig) : MQTopics :=
  let (mqs, err) := t.mqs.initMQWithRPC topicCategory rpcType connCfg mqCfg
  match mqCfg, connCfg with
  | some mqCfg, some connCfg =>
    { mqs
      asked := ask t.asked topicCategory mqCfg.instanceName (some (.rpc ⟨rpcType, connCfg, mqCfg.amqpConfig ""⟩))
        err }
  | _, _ => { t with mqs }

/-- A topic of Kafka is asked to be no more. -/
def stopKafka (t : MQTopics) (mqConnName : String) : MQTopics where
  mqs := t.mqs.stopKafka mqConnName
  asked :=
    if (t.asked mqConnName).any fun a => a.sink.driver = .kafka then t.asked.delete mqConnName else t.asked

def step (t : MQTopics) : TopicEvent → MQTopics
  | .loadRoutes loaded => { t with mqs := t.mqs.initMQRoutesEnv loaded }
  | .addConnConfig connName cfg => { t with mqs := t.mqs.addConnConfig connName cfg }
  | .initMQTopic topicCategory topicConfig mqDriverConfigs initErr =>
    t.initMQTopic topicCategory topicConfig mqDriverConfigs initErr
  | .initMQWithRPC topicCategory rpcType connCfg mqCfg => t.initMQWithRPC topicCategory rpcType connCfg mqCfg
  | .stopKafka mqConnName => t.stopKafka mqConnName

/-- Every topic is what it was asked to be. -/
def Serves (t : MQTopics) : Prop := ∀ category a, t.asked category = some a → t.mqs.Reaches category a

/-- An instance that is there with an equal configuration is the one that is asked for. -/
def Accepts {κ : Type} (equals : κ → κ → Bool) (insts : GoMap String (Connected κ)) (category : String)
    (inst : Connected κ) : Prop :=
  ∀ old, insts category = some old → equals old.config inst.config = true → old = inst

/-- A call of `InitMQTopic` that finds its connection leaves every topic what it was asked to be. The
route is the one that was there first. -/
def KeepsTopic (t : MQTopics) (category : String) (cfg : MQConfig) (instCnf : MQConnectorConfig)
    (initErr : Option String) : Prop :=
  let route := (t.mqs.mqRoutesEnv category).getD cfg
  match mqDriver? instCnf.driver with
  | some .amqp =>
    if cfg.rpcEnabled then ∀ a, t.asked category = some a → a.sink.driver = .amqp
    else
      let inst : Connected AMQPConfig := ⟨instCnf, cfg.amqpConfig cfg.instanceName, true⟩
      if initErr = none ∨ ∃ old, t.mqs.amqpInsts category = some old ∧ old.config.equals inst.config = true then
        route.rpcEnabled = false ∧ Accepts AMQPConfig.equals t.mqs.amqpInsts category inst
      else ∀ a, t.asked category = some a → a.sink.isRpc = true
  | some .kafka => ∀ old, t.mqs.kafkaInstances category = some old → old = cfg.kafkaConfig instCnf
  | some .pulsar =>
    let inst : Connected PulsarConfig := ⟨instCnf, cfg.pulsarConfig, true⟩
    if initErr = none ∨ ∃ old, t.mqs.pulsarInsts category = some old ∧ old.config.equals inst.config = true then
      Accepts PulsarConfig.equals t.mqs.pulsarInsts category inst
    else t.asked category = none
  | some .mock => route.topic = cfg.topic
  | none => t.asked category = none

/-- Likewise for `InitMQWithRPC`, where a driver that is set stays. -/
def KeepsRPC (t : MQTopics) (category : String) (rpcType : ℤ) (connCfg : MQConnectorConfig) (mqCfg : MQConfig) :
    Prop :=
  let inst : RpcRabbit := ⟨rpcType, connCfg, mqCfg.amqpConfig ""⟩
  ((t.mqs.mqCategoryDrivers category).getD "" = "" ∨ (t.mqs.mqCategoryDrivers category).getD "" = "rabbitmq") ∧
    ((t.mqs.mqRoutesEnv category).getD mqCfg).rpcEnabled = true ∧
      ∀ old, t.mqs.amqpRpcs category = some old → old.config.equals inst.config = true → old = inst

def Keeps (t : MQTopics) : TopicEvent → Prop
  | .loadRoutes loaded => ∀ category a, t.asked category = some a → ∀ cfg,
      t.mqs.mqRoutesEnv.storePairs loaded category = some cfg → a.sink.Fits cfg
  | .addConnConfig _ _ | .stopKafka _ => True
  | .initMQTopic category topicConfig mqDriverConfigs initErr => ∀ cfg instCnf, topicConfig = some cfg →
      t.mqs.connOf mqDriverConfigs cfg.instanceName = some instCnf → KeepsTopic t category cfg instCnf initErr
  | .initMQWithRPC category rpcType connCfg mqCfg => ∀ conn cfg, connCfg = some conn → mqCfg = some cfg →
      conn.driver = "rabbitmq" → KeepsRPC t category rpcType conn cfg

/-! ## One call -/

/-- The route of a topic that was asked for stays. -/
theorem Serves.fits (h : t.Serves) {a : AskedTopic} (ha : t.asked category = some a) (cfg : MQConfig) :
    a.sink.Fits ((t.mqs.mqRoutesEnv category).getD cfg) := by
  obtain ⟨⟨⟨route, hroute, hfits⟩, -⟩, -⟩ := MQRoutes.reaches_iff.mp (h category a ha)
  rw [hroute]
  exact hfits

theorem Serves.holds (h : t.Serves) {a : AskedTopic} (ha : t.asked category = some a) :
    t.mqs.Holds category a.sink := (MQRoutes.reaches_iff.mp (h category a ha)).1.2.2

section Topic

variable {cfg : MQConfig} {instCnf : MQConnectorConfig} {u : MQRoutes} {err : Option String}

end Topic

section Calls

variable {cfg : MQConfig} {instCnf : MQConnectorConfig} {initErr : Option String}

end Calls

/-! ## Each event -/

section Rpc

variable {rpcType : ℤ} {connCfg : MQConnectorConfig} {mqCfg : MQConfig}

end Rpc

end MQTopics
end Gocom
