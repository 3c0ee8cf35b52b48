import Gocom.ConnectionStrings
import Gocom.GoMaps
import Gocom.GuardedRuns
import Gocom.PulsarInstance
import Gocom.RabbitRegistry

/-!
# Topics and their drivers

A topic is known by its category. Initialising it picks a driver and makes an instance of it under the
category's name. The routes, the drivers of the categories and the instances are kept in maps of their
own, and what is there first is not always replaced.
-/

namespace Gocom

open Runs

structure Exchange where
  type : String := ""
  name : String := ""
  durable : Bool := false

/-- `mq.Config`. -/
structure MQConfig where
  instanceName : String := ""
  queue : String := ""
  exchange : Exchange := {}
  bindingKey : String := ""
  durable : Bool := false
  autoDelete : Bool := false
  rpcEnabled : Bool := false
  topic : String := ""
  groupID : String := ""
  partition : ℤ := 0
  maxPollIntervalMS : ℤ := 0
  messageType : String := ""
  useOriginalContent : Bool := false

/-- `kafka.Config`, without what is never set. -/
structure KafkaConfig where
  hosts : String := ""
  partition : ℤ := 0
  groupID : String := ""
  maxPollIntervalMS : ℤ := 0
  saslUsername : String := ""
  saslPassword : String := ""
  messageType : String := ""
  useOriginalContent : Bool := false

inductive MQDriver where
  | amqp
  | kafka
  | pulsar
  | mock
  deriving DecidableEq

/-- The driver of a connection; another text is none. -/
def mqDriver? (driver : String) : Option MQDriver :=
  if driver = "rabbitmq" then some .amqp
  else if driver = "kafka" then some .kafka
  else if driver = "pulsar" then some .pulsar
  else if driver = "mock" then some .mock
  else none

def PulsarConfig.equals (me other : PulsarConfig) : Bool :=
  me.topic == other.topic && me.connConfigName == other.connConfigName && me.messageType == other.messageType

/-- An instance of a driver that connects, and whether its `Run` was started. -/
structure Connected (κ : Type) where
  connCfg : MQConnectorConfig
  config : κ
  running : Bool

/-- An instance of `RabbitRPC`; it is run in any case. -/
structure RpcRabbit where
  rpcType : ℤ
  connCfg : MQConnectorConfig
  config : AMQPConfig

/-- An instance with another configuration is closed and forgotten. The new one is registered before it
is initialised. -/
def initConnected {κ ε : Type} (equals : κ → κ → Bool) (initErr : Option ε) (insts : GoMap String (Connected κ))
    (name : String) (connCfg : MQConnectorConfig) (cfg : κ) : GoMap String (Connected κ) × Option ε :=
  if (insts name).any fun inst => equals inst.config cfg then (insts, none)
  else (insts.store name ⟨connCfg, cfg, initErr.isNone⟩, initErr)

/-- What a message is given to; the mock is given the topic with it. -/
inductive MQSink where
  | rabbit (inst : Connected AMQPConfig)
  | rpc (inst : RpcRabbit)
  | kafka (config : KafkaConfig)
  | pulsar (inst : Connected PulsarConfig)
  | mock (topic : String)

/-- The maps of the process, those of the drivers among them. -/
structure MQRoutes where
  mqRoutesEnv : GoMap String MQConfig := .empty
  mqCategoryDrivers : GoMap String String := .empty
  mqCategoriesByInstance : GoMap String (List String) := .empty
  mqConnConfigs : GoMap String MQConnectorConfig := .empty
  amqpInsts : GoMap String (Connected AMQPConfig) := .empty
  amqpRpcs : GoMap String RpcRabbit := .empty
  kafkaInstances : GoMap String KafkaConfig := .empty
  pulsarInsts : GoMap String (Connected PulsarConfig) := .empty
  mockInstances : GoMap String Unit := .empty

/-! ## The configurations of the drivers -/

def trimSpaceChars (s : List Char) : List Char :=
  ((s.dropWhile DBConnectionPoolOptions.isSpace).reverse.dropWhile DBConnectionPoolOptions.isSpace).reverse

/-- Hosts without a port are given the one of the connection. -/
def kafkaHosts (host : String) (port : ℤ) : String :=
  if port > 0 then
    ",".intercalate <| (host.toList.splitOn ',').map fun hostPart =>
      let hostElems := (trimSpaceChars hostPart).splitOn ':'
      if hostElems.length < 2 then String.ofList (trimSpaceChars (hostElems.headD [])) ++ ":" ++ toString port
      else String.ofList hostPart
  else host

namespace MQConfig

def amqpConfig (cfg : MQConfig) (connConfigName : String) : AMQPConfig where
  connConfigName := connConfigName
  queue := cfg.queue
  queueDurable := cfg.durable
  bindingExchange := cfg.exchange.name != ""
  exchangeName := cfg.exchange.name
  exchangeType := cfg.exchange.type
  bindingKey := cfg.bindingKey
  queueAutoDelete := cfg.autoDelete

def kafkaConfig (cfg : MQConfig) (instCnf : MQConnectorConfig) : KafkaConfig where
  hosts := kafkaHosts instCnf.host instCnf.port
  partition := cfg.partition
  groupID := cfg.groupID
  maxPollIntervalMS := cfg.maxPollIntervalMS
  saslUsername := instCnf.user
  saslPassword := instCnf.password
  messageType := cfg.messageType
  useOriginalContent := cfg.useOriginalContent

def pulsarConfig (cfg : MQConfig) : PulsarConfig where
  topic := if cfg.topic = "" ∧ cfg.queue ≠ "" then cfg.queue else cfg.topic
  connConfigName := cfg.instanceName
  messageType := cfg.messageType

end MQConfig

namespace MQRoutes

/-! ## Initialising -/

def getMQConfig (s : MQRoutes) (category : String) : Option MQConfig := s.mqRoutesEnv category

def setMQConfig (s : MQRoutes) (category : String) (cnf : MQConfig) : MQRoutes :=
  { s with mqRoutesEnv := s.mqRoutesEnv.store category cnf }

def getAllCategoryNamesByInstance (s : MQRoutes) (instanceName : String) : List String :=
  (s.mqCategoriesByInstance instanceName).getD []

/-- `mqCategoriesByInstance[instanceName][category] = true`. -/
def addCategory (s : MQRoutes) (instanceName category : String) : MQRoutes :=
  let categories := s.getAllCategoryNamesByInstance instanceName
  { s with
    mqCategoriesByInstance := s.mqCategoriesByInstance.store instanceName
      (if category ∈ categories then categories else categories ++ [category]) }

def addConnConfig (s : MQRoutes) (connName : String) (cfg : MQConnectorConfig) : MQRoutes :=
  if s.mqConnConfigs connName = none then { s with mqConnConfigs := s.mqConnConfigs.store connName cfg } else s

/-- The driver's part of `InitMQTopic`. `initErr` is what comes of initialising an instance, where one is. -/
def initDriver (s : MQRoutes) (category : String) (cfg : MQConfig) (instCnf : MQConnectorConfig)
    (initErr : Option String) : MQRoutes × Option String :=
  match mqDriver? instCnf.driver with
  | some .amqp =>
    if cfg.rpcEnabled then (s, none)
    else
      let (insts, err) := initConnected AMQPConfig.equals initErr s.amqpInsts category instCnf
        (cfg.amqpConfig cfg.instanceName)
      ({ s with amqpInsts := insts }, err)
  | some .kafka =>
    if s.kafkaInstances category = none then
      ({ s with kafkaInstances := s.kafkaInstances.store category (cfg.kafkaConfig instCnf) }, none)
    else (s, none)
  | some .pulsar =>
    let (insts, err) := initConnected PulsarConfig.equals initErr s.pulsarInsts category instCnf cfg.pulsarConfig
    ({ s with pulsarInsts := insts }, err)
  | some .mock => ({ s with mockInstances := s.mockInstances.store category () }, none)
  | none => (s, some s!"initialize mq:{category} with unknown driver:{instCnf.driver}")

/-- The route stays where there is one. -/
def addRoute (s : MQRoutes) (category : String) (cfg : MQConfig) : MQRoutes :=
  if s.getMQConfig category = none then s.setMQConfig category cfg else s

/-- `InitMQTopic` before the driver's part. -/
def enterTopic (s : MQRoutes) (category : String) (cfg : MQConfig) (instCnf : MQConnectorConfig) : MQRoutes :=
  let s := (s.addConnConfig cfg.instanceName instCnf).addRoute category cfg
  { s with mqCategoryDrivers := s.mqCategoryDrivers.store category instCnf.driver }.addCategory cfg.instanceName
    category

/-- The connection of a topic: one that is given, or one that is known. -/
def connOf (s : MQRoutes) (mqDriverConfigs : GoMap String MQConnectorConfig) (instanceName : String) :
    Option MQConnectorConfig :=
  (mqDriverConfigs instanceName).or (s.mqConnConfigs instanceName)

def initMQTopic (s : MQRoutes) (topicCategory : String) (topicConfig : Option MQConfig)
    (mqDriverConfigs : GoMap String MQConnectorConfig) (initErr : Option String) : MQRoutes × Option String :=
  match topicConfig with
  | none => (s, some s!"initialize MQ topic for category:{topicCategory} while topic config nil")
  | some cfg =>
    match s.connOf mqDriverConfigs cfg.instanceName with
    | none =>
      (s, some (s!"initialize mq:{topicCategory} with connection instance:{cfg.instanceName} failed, " ++
        "the instance not configured"))
    | some instCnf => (s.enterTopic topicCategory cfg instCnf).initDriver topicCategory cfg instCnf initErr

def initRPCRabbitMQ (s : MQRoutes) (key : String) (rpcType : ℤ) (connCfg : MQConnectorConfig)
    (amqpCfg : AMQPConfig) : MQRoutes :=
  if (s.amqpRpcs key).any fun r => r.config.equals amqpCfg then s
  else { s with amqpRpcs := s.amqpRpcs.store key ⟨rpcType, connCfg, amqpCfg⟩ }

/-- A driver that is set stays. -/
def addDriver (s : MQRoutes) (category driver : String) : MQRoutes :=
  if (s.mqCategoryDrivers category).getD "" = "" then
    { s with mqCategoryDrivers := s.mqCategoryDrivers.store category driver }
  else s

/-- The route that is written once more, into a copy of the routes, is left out. -/
def initMQWithRPC (s : MQRoutes) (topicCategory : String) (rpcType : ℤ) (connCfg : Option MQConnectorConfig)
    (mqCfg : Option MQConfig) : MQRoutes × Option String :=
  match mqCfg, connCfg with
  | some mqCfg, some connCfg =>
    let s := s.addRoute topicCategory mqCfg
    if connCfg.driver = "rabbitmq" then
      (((s.addDriver topicCategory connCfg.driver).addCategory mqCfg.instanceName topicCategory).initRPCRabbitMQ
        topicCategory rpcType connCfg (mqCfg.amqpConfig ""), none)
    else (s, some "invalid mq rpc driver")
  | _, _ =>
    (s, some (s!"initialize mq rpc with key:{topicCategory} rpc_type:{rpcType} failed, " ++
      "invalid conn_cofig or invalid mq_config"))

/-- What a read file says takes the place of what was. -/
def initMQRoutesEnv (s : MQRoutes) (loaded : List (String × MQConfig)) : MQRoutes :=
  { s with mqRoutesEnv := s.mqRoutesEnv.storePairs loaded }

def stopKafka (s : MQRoutes) (mqConnName : String) : MQRoutes :=
  { s with kafkaInstances := s.kafkaInstances.delete mqConnName }

/-! ## Looking up -/

def driverOf (s : MQRoutes) (category : String) : Option MQDriver :=
  mqDriver? ((s.mqCategoryDrivers category).getD "")

/-- `ready` says whether the instance for RPC has its channel, its queue and consumers. -/
def publishMQ (s : MQRoutes) (ready : Bool) (mqCategory : String) : Except String MQSink :=
  match s.getMQConfig mqCategory with
  | none => .error s!"publish MQ with invalid category:{mqCategory}"
  | some mqConfig =>
    match s.driverOf mqCategory with
    | some .amqp =>
      if mqConfig.rpcEnabled then
        match s.amqpRpcs mqCategory with
        | some rpcInst =>
          if ready then .ok (.rpc rpcInst)
          else .error (s!"no RPC rabbitmq instance by {mqCategory} found or there is no backend consumers ready")
        | none => .error (s!"no RPC rabbitmq instance by {mqCategory} found or there is no backend consumers ready")
      else
        match s.amqpInsts mqCategory with
        | some inst => .ok (.rabbit inst)
        | none => .error s!"RabbitMQ instance by {mqCategory} not found"
    | some .kafka =>
      match s.kafkaInstances mqCategory with
      | some inst => .ok (.kafka inst)
      | none => .error s!"Kafka instance by {mqCategory} not found"
    | some .pulsar =>
      match s.pulsarInsts mqCategory with
      | some inst => .ok (.pulsar inst)
      | none => .error s!"PulsarMQ instance by {mqCategory} not found"
    | some .mock =>
      match s.mockInstances mqCategory with
      | some _ => .ok (.mock mqConfig.topic)
      | none => .error s!"MockMQ instance by {mqCategory} not found"
    | none => .error s!"invalid mq {mqCategory} driver"

/-- A consumer of the mock names its topic itself. -/
def consumeMQ (s : MQRoutes) (mqCategory queue : String) : Except String MQSink :=
  match s.getMQConfig mqCategory with
  | none => .error s!"consume MQ with invalid category:{mqCategory}"
  | some mqConfig =>
    match s.driverOf mqCategory with
    | some .amqp =>
      if mqConfig.rpcEnabled then
        match s.amqpRpcs mqCategory with
        | some rpcInst => .ok (.rpc rpcInst)
        | none => .error s!"no RPC rabbitmq instance by {mqCategory} found"
      else
        match s.amqpInsts mqCategory with
        | some inst => .ok (.rabbit inst)
        | none => .error s!"RabbitMQ instance by {mqCategory} not found"
    | some .kafka =>
      match s.kafkaInstances mqCategory with
      | some inst => .ok (.kafka inst)
      | none => .error s!"Kafka instance by {mqCategory} not found"
    | some .pulsar =>
      match s.pulsarInsts mqCategory with
      | some inst => .ok (.pulsar inst)
      | none => .error s!"PulsarMQ instance by {mqCategory} not found"
    | some .mock =>
      match s.mockInstances mqCategory with
      | some _ => .ok (.mock queue)
      | none => .error s!"MockMQ instance by {mqCategory} not found"
    | none => .error s!"invalid mq {mqCategory} driver"

/-- Whether the topic is for RPC is not looked at. -/
def queryMQ (s : MQRoutes) (mqCategory : String) : Except String MQSink :=
  match s.getMQConfig mqCategory with
  | none => .error s!"query RPC MQ with invalid category:{mqCategory}"
  | some mqConfig =>
    match s.driverOf mqCategory with
    | some .amqp =>
      match s.amqpInsts mqCategory with
      | some inst => .ok (.rabbit inst)
      | none => .error s!"RabbitMQ instance by {mqCategory} not found"
    | some .kafka =>
      match s.kafkaInstances mqCategory with
      | some inst => .ok (.kafka inst)
      | none => .error s!"Kafka instance by {mqCategory} not found"
    | some .pulsar =>
      match s.pulsarInsts mqCategory with
      | some inst => .ok (.pulsar inst)
      | none => .error s!"PulsarMQ instance by {mqCategory} not found"
    | some .mock =>
      match s.mockInstances mqCategory with
      | some _ => .ok (.mock mqConfig.topic)
      | none => .error s!"MockMQ instance by {mqCategory} not found"
    | none =>
      let mqDriver := (s.mqCategoryDrivers mqCategory).getD ""
      .error s!"query RPC MQ not supported driver:{mqDriver}"

end MQRoutes

/-! ## The registry of RabbitMQ instances -/

variable {σ : Type*}

namespace RabbitMQ

theorem removeUnusedQueue_config (b : Broker σ) (r : RabbitMQ σ) : (removeUnusedQueue b r).config = r.config := by
  rw [removeUnusedQueue]
  split_ifs <;> rfl

/-- Nothing waits for the queue of a new instance, so connecting only declares the queue. -/
theorem initConn_config {b : Broker σ} {r : RabbitMQ σ} (hconsumers : r.pendingConsumers = [])
    (hpublishes : r.pendingPublishes = []) : (initConn b r).config = r.config := by
  have hflush : ∀ r' : RabbitMQ σ, r'.pendingConsumers = [] → r'.pendingPublishes = [] →
      (ensurePendings b r').config = r'.config := by
    intro r' hconsumers hpublishes
    simp only [ensurePendings, ensurePendingsWith, hconsumers, hpublishes, List.foldl_nil]
  have hqueue : ∀ r' : RabbitMQ σ, r'.pendingConsumers = [] → r'.pendingPublishes = [] →
      (ensureQueue b r').1.config = r'.config := by
    intro r' hconsumers hpublishes
    rw [ensureQueue, ensureQueueWith]
    split_ifs
    · rfl
    · split
      · rfl
      · rw [removeUnusedQueue_config]
        exact hflush _ hconsumers hpublishes
  rw [initConn]
  split_ifs
  · rfl
  · split
    · rfl
    · rfl
    · dsimp only
      split_ifs
      · rfl
      · exact hqueue _ hconsumers hpublishes

end RabbitMQ

namespace RabbitRegistry

/-- The instances as they are known here. -/
def connected (s : RabbitRegistry σ) : GoMap String (Connected AMQPConfig) := fun name =>
  (s.amqpInsts name).map fun inst => ⟨inst.connConfig, inst.rabbit.config, inst.running⟩

/-- What initialising a new instance comes to. -/
def newError (b : MQConnectorConfig → Broker σ) (s : RabbitRegistry σ) (connCfg : MQConnectorConfig)
    (amqpCfg : AMQPConfig) : Option InitError :=
  RabbitMQ.initError (b connCfg)
    (RabbitMQ.newRabbitMQ s.env amqpCfg connCfg.driver s.jinDie s.trackerQueue s.messages)

theorem connected_store (s : RabbitRegistry σ) (env : σ) (name : String) (inst : RegisteredRabbit σ) :
    ({ s with env, amqpInsts := s.amqpInsts.store name inst } : RabbitRegistry σ).connected =
      s.connected.store name ⟨inst.connConfig, inst.rabbit.config, inst.running⟩ := by
  funext c
  by_cases hc : c = name
  · subst hc
    rw [GoMap.store_self]
    exact congrArg (Option.map _) (GoMap.store_self s.amqpInsts c inst)
  · rw [GoMap.store_of_ne hc]
    exact congrArg (Option.map _) (GoMap.store_of_ne hc s.amqpInsts inst)

/-- The registry does to its instances what `initConnected` does. -/
theorem initRabbitMQ_connected (b : MQConnectorConfig → Broker σ) (s : RabbitRegistry σ) (name : String)
    (connCfg : MQConnectorConfig) (amqpCfg : AMQPConfig) :
    (s.initRabbitMQ b name connCfg amqpCfg).1.connected =
      (initConnected AMQPConfig.equals (newError b s connCfg amqpCfg) s.connected name connCfg amqpCfg).1 := by
  by_cases hanswered : Answered s name amqpCfg
  · obtain ⟨inst, hinst, hequals⟩ := hanswered
    have hany : (s.connected name).any (fun inst => inst.config.equals amqpCfg) = true := by
      rw [connected, hinst]
      exact hequals
    rw [initRabbitMQ_of_equals hinst hequals, initConnected, if_pos hany]
  · have hany : ¬ (s.connected name).any (fun inst => inst.config.equals amqpCfg) = true := by
      rw [connected, Option.any_map]
      intro hany
      exact hanswered ((Option.any_eq_true _ _).mp hany)
    rw [initRabbitMQ_of_not_answered hanswered, create_eq rfl, connected_store, initConnected, if_neg hany]
    rw [RabbitMQ.initConn_config rfl rfl]
    rfl

end RabbitRegistry
end Gocom
