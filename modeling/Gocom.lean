import Gocom.AccessControl
import Gocom.AccessLogs
import Gocom.AccessMatrices
import Gocom.AesCrypto
import Gocom.AesDecryption
import Gocom.AsyncRecordSaver
import Gocom.AuthorizedModules
import Gocom.BinaryFields
import Gocom.BinaryFloats
import Gocom.BlacklistSections
import Gocom.BracketWords
import Gocom.BuiltinModels
import Gocom.CacheCoherence
import Gocom.CacheElements
import Gocom.CacheExpiry
import Gocom.CacheTimerRuns
import Gocom.CacheTimers
import Gocom.CachedLists
import Gocom.CaseConversions
import Gocom.ColumnValues
import Gocom.ComparisonLaws
import Gocom.ComparisonPanics
import Gocom.Comparisons
import Gocom.ConditionKeyCollisions
import Gocom.ConditionKeyReading
import Gocom.ConditionKeys
import Gocom.ConnectionStringReading
import Gocom.ConnectionStrings
import Gocom.CustomDigits
import Gocom.DataAccess
import Gocom.DatabaseDsn
import Gocom.DatabaseDsnReading
import Gocom.DatasourceNames
import Gocom.DefaultValues
import Gocom.DeleteConditions
import Gocom.DerivedTables
import Gocom.DocsParameters
import Gocom.EmbeddedFields
import Gocom.EscapedTexts
import Gocom.ExternalWidgets
import Gocom.FifoQueue
import Gocom.FilterGate
import Gocom.FormCopying
import Gocom.FormData
import Gocom.FueledCalls
import Gocom.FueledWalks
import Gocom.GoStructs
import Gocom.GoTimes
import Gocom.GraphqlConditionBeans
import Gocom.GraphqlDelete
import Gocom.HandlerExecution
import Gocom.HandlerNames
import Gocom.HandlerOutputs
import Gocom.HandlerPipeline
import Gocom.HeaderMaps
import Gocom.HealthChecks
import Gocom.HighWaterMarks
import Gocom.HttpClient
import Gocom.HttpRetries
import Gocom.HttpRetryRuns
import Gocom.HumanReadable
import Gocom.JobPools
import Gocom.JoinedTables
import Gocom.JoinedPairs
import Gocom.KafkaConsumer
import Gocom.KafkaDispatch
import Gocom.KafkaPackets
import Gocom.KafkaRoundTrips
import Gocom.KafkaWaiters
import Gocom.KafkaWorker
import Gocom.KeyInsertion
import Gocom.ListRemoval
import Gocom.LocalTimes
import Gocom.LogCleanup
import Gocom.LogRotation
import Gocom.LoginLockout
import Gocom.LoginVerifier
import Gocom.MappedStructs
import Gocom.MemoPools
import Gocom.MockDelivery
import Gocom.MockMQ
import Gocom.MockReplies
import Gocom.ModelFields
import Gocom.MongoUpdates
import Gocom.MqRoutes
import Gocom.MqTopicRuns
import Gocom.MtomDecoding
import Gocom.NumberConversions
import Gocom.NumberTexts
import Gocom.Numerals
import Gocom.OnesComplement
import Gocom.OracleThinDsn
import Gocom.OrderedQueue
import Gocom.OrderedQueueLookup
import Gocom.OrderedQueueRuns
import Gocom.Outbox
import Gocom.Pagination
import Gocom.PartialAssignments
import Gocom.PartitionWindows
import Gocom.PathNames
import Gocom.PingChecksums
import Gocom.PrimaryKeyBeans
import Gocom.PropertyTagReading
import Gocom.PropertyTagRoundTrips
import Gocom.PropertyTags
import Gocom.PulsarDelivery
import Gocom.PulsarInstance
import Gocom.PulsarProperties
import Gocom.PulsarQueries
import Gocom.PulsarReplies
import Gocom.PulsarRuns
import Gocom.PulsarSubscriptions
import Gocom.QueryParameters
import Gocom.QueryTexts
import Gocom.RabbitConsumers
import Gocom.RabbitInstance
import Gocom.RabbitPublishRuns
import Gocom.RabbitQueries
import Gocom.RabbitRegistry
import Gocom.RabbitReplies
import Gocom.RabbitRpc
import Gocom.RbacRuns
import Gocom.RecordHandlers
import Gocom.RecordTables
import Gocom.RelationAssignment
import Gocom.RelationHandlers
import Gocom.RelationOutcomes
import Gocom.RootedPaths
import Gocom.RowNumberOrders
import Gocom.RowWindows
import Gocom.ScaffoldIndex
import Gocom.ScaffoldModels
import Gocom.SegmentedTexts
import Gocom.SelectStatements
import Gocom.SettingTexts
import Gocom.SignatureContent
import Gocom.SignaturePayloads
import Gocom.SignatureSeparation
import Gocom.SshTunnelDsn
import Gocom.StableOrder
import Gocom.StatementRuns
import Gocom.Substrings
import Gocom.SwaggerDocs
import Gocom.TextCuts
import Gocom.TrackedRuns
import Gocom.TransportPool
import Gocom.TreeBuilders
import Gocom.TreeForests
import Gocom.TreePointers
import Gocom.TypedValues
import Gocom.UrlEncodedReading
import Gocom.UrlEncodedRoundTrips
import Gocom.UrlEncoding
import Gocom.UrlPaths
import Gocom.Utf8Runes
import Gocom.Utf8Texts
import Gocom.ValidateTags
import Gocom.WidgetStrategies
