import Iotistica.BufferClaims
import Iotistica.BufferScope
import Iotistica.DriftBounds
import Iotistica.ContainerLifecycle
import Iotistica.ContainerSafety
import Iotistica.ContainerBookkeeping
import Iotistica.DockerRoundTrip
import Iotistica.RetryManager
import Iotistica.DictionaryCache
import Iotistica.DictionaryDeltas
import Iotistica.DictionarySync
import Iotistica.DictionaryRoundTrip
import Iotistica.LogConservation
import Iotistica.LogCursor
import Iotistica.LogSpoolDelivery
import Iotistica.OfflineRemovals
import Iotistica.ReportDurability
import Iotistica.TargetETags
import Iotistica.ReportedState
import Iotistica.ReconcileRequests
import Iotistica.EndpointTargets
import Iotistica.EndpointIdempotence
import Iotistica.IngestionDelivery
import Iotistica.SpoolCustody
import Iotistica.ReadingsAgreement
import Iotistica.ReadingBatches
import Iotistica.LatestFlusher
import Iotistica.Autoscaler
import Iotistica.PendingReplay
import Iotistica.TopicDelivery
import Iotistica.AclSubscriptions
import Iotistica.PendingMessages
import Iotistica.OfflinePublishes
import Iotistica.AuthRevocation
import Iotistica.CloudCorrelation
import Iotistica.EdgeCorrelation
import Iotistica.VolatileDrains
import Iotistica.AgentSupervision
import Iotistica.SubscriptionAnswers
import Iotistica.FrameReassembly
import Iotistica.BufferQuotas
import Iotistica.BufferDequeue
import Iotistica.PublishShutdown
import Iotistica.SatisfiedServices
import Iotistica.ReconciliationStatus
import Iotistica.FailedDownloads
import Iotistica.DriftPromotion
import Iotistica.MetricIdentity
import Iotistica.DockerNetworks
import Iotistica.ProbeStatus
import Iotistica.ProbeChains
import Iotistica.DictionaryEnums
import Iotistica.CodecHistories
import Iotistica.PollValues
import Iotistica.WriteReadback
import Iotistica.StateDiff
import Iotistica.TargetSnapshots
import Iotistica.PayloadFormats
import Iotistica.QualityCodes
import Iotistica.FormatAgreement
import Iotistica.PoisonedBatches
import Iotistica.EndpointUpserts
import Iotistica.AdaptiveBatches
import Iotistica.LogSpoolSuffix
import Iotistica.StoredBatches
import Iotistica.OfflineAttempts
import Iotistica.StateHash
import Iotistica.MessageTracker
import Iotistica.MqttRouting
import Iotistica.DeepEqual
import Iotistica.HealthArbiter
import Iotistica.RedisPipeline
import Iotistica.Deduplication
import Iotistica.FieldSimilarity
import Iotistica.SubscriptionStream
import Iotistica.InsertCounts
import Iotistica.LeaderElection
