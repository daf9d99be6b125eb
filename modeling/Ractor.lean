import Ractor.FactoryShutdown
import Ractor.FactoryStickyKeys
import Ractor.FactoryDrainProgress
import Ractor.FactoryDrainingWorkers
import Ractor.FactoryCompletions
import Ractor.FactoryKeyOrder
import Ractor.FactoryConfirmedTargets
import Ractor.FactoryExpiredJobs
import Ractor.FactoryLoadShedding
import Ractor.FactoryWorkerRuns
import Ractor.FactoryIndexBounds
import Ractor.FactoryAcceptance
import Ractor.FactoryCapacity
import Ractor.LeakyBuckets
import Ractor.StopNotification
import Ractor.DrainedActors
import Ractor.ExitNotification
import Ractor.SubtreeTermination
import Ractor.NameRegistry
import Ractor.ElectionIndependence
import Ractor.ConnectionAgreement
import Ractor.CookieAuthentication
import Ractor.LifecycleTraces
import Ractor.NotificationReplay
import Ractor.GroupShutdownRaces
import Ractor.ByteConversions
import Ractor.JobSerialization
import Ractor.RetryBudget
import Ractor.FrameStreams
import Ractor.DerivedRoundTrips
import Ractor.RemoteReplies
import Ractor.MirrorConvergence
import Ractor.OutputPortBatches
