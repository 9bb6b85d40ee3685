import NostrPubsub.ToMathlib.Finmap
import NostrPubsub.ToMathlib.Fifo
import NostrPubsub.Core
import NostrPubsub.Mesh.Defs
import NostrPubsub.Mesh.PeerSelection
import NostrPubsub.Mesh.Resources
import NostrPubsub.Mesh.Operations
import NostrPubsub.ToMathlib.Mealy
import NostrPubsub.ToMathlib.Except
import NostrPubsub.Mesh.Run
import NostrPubsub.Mesh.Updates
import NostrPubsub.Mesh.Accounting
import NostrPubsub.Mesh.Provenance
import NostrPubsub.Mesh.AtMostOnce
import NostrPubsub.Mesh.Lockstep
import NostrPubsub.Mesh.LazyPrune
import NostrPubsub.Stream.Codec
import NostrPubsub.Stream.Operations
import NostrPubsub.Stream.Records
import NostrPubsub.Stream.Coalescing
import NostrPubsub.Mesh.Closing
import NostrPubsub.Stream.Run
import NostrPubsub.Stream.RouteClosure
import NostrPubsub.Stream.TcpDriver
import NostrPubsub.Stream.Isolation
import NostrPubsub.Mesh.HopBudget
import NostrPubsub.Mesh.Network
import NostrPubsub.Mesh.FanOut
import NostrPubsub.Query.Pagination
import NostrPubsub.Query.HistoryRun
import NostrPubsub.Query.HistoryCoverage
import NostrPubsub.Query.HistoryTokens
import NostrPubsub.ToMathlib.Leading
import NostrPubsub.Store.Retained
import NostrPubsub.Store.Convergence
import NostrPubsub.Store.FileStore
import NostrPubsub.Store.Restart
import NostrPubsub.Store.AtomicCommit
import NostrPubsub.ToMathlib.Recency
import NostrPubsub.Query.Subscriptions
import NostrPubsub.Query.Bookkeeping
import NostrPubsub.Query.SubscriptionRuns
import NostrPubsub.Routing.Routes
import NostrPubsub.Routing.Merge
import NostrPubsub.Routing.QueryRoutes
import NostrPubsub.Routing.LiveRoutes
import NostrPubsub.Reconcile.Wire
import NostrPubsub.Reconcile.Snapshot
import NostrPubsub.Reconcile.RangeEngine
import NostrPubsub.Reconcile.Engine
import NostrPubsub.Fips.SeenIds
import NostrPubsub.Fips.SeenWindows
import NostrPubsub.Fips.PendingWants
import NostrPubsub.Fips.AskedProviders
import NostrPubsub.Fips.LocalDelivery
import NostrPubsub.Fips.DeliveryOrder
import NostrPubsub.Fips.AnonymousPublication
import NostrPubsub.Fips.PublicationReceipts
import NostrPubsub.Reputation.PeerReputation
import NostrPubsub.Reputation.ArrivalOrder
import NostrPubsub.WireTcp.Records
import NostrPubsub.WireTcp.Driver
import NostrPubsub.WireTcp.ReadTurns
import NostrPubsub.WireTcp.Framing
import NostrPubsub.WireTcp.Lossless
import NostrPubsub.WireTcp.Refresh
import NostrPubsub.WireTcp.SimultaneousOpen
import NostrPubsub.Fips.PrivacyRoles
import NostrPubsub.Mesh.Waiting
import NostrPubsub.Reputation.Retention
import NostrPubsub.Reputation.Strangers
import NostrPubsub.Fips.WireCodec
import NostrPubsub.Fips.WireInterop
import NostrPubsub.Fips.InvWantState
import NostrPubsub.Fips.InvWantAnswers
import NostrPubsub.Runtime.EventStore
import NostrPubsub.Runtime.Admission
import NostrPubsub.Runtime.Outbox
import NostrPubsub.Mesh.Rejections
import NostrPubsub.VerificationCache
import NostrPubsub.Routing.Publication
import NostrPubsub.Store.MemoryBus
import NostrPubsub.Mesh.TopPeers
import NostrPubsub.Store.Expiry
import NostrPubsub.Mesh.Evidence
import NostrPubsub.Mesh.LocalPublication
import NostrPubsub.Mesh.Framing
import NostrPubsub.Mesh.RouteEvidence
import NostrPubsub.Mesh.Scoring
import NostrPubsub.Reconcile.EngineLoop
import NostrPubsub.Reconcile.EngineOutput
import NostrPubsub.Reconcile.Validation
import NostrPubsub.Reconcile.FrameSafety
import NostrPubsub.Reconcile.BoundCoding
import NostrPubsub.WireTcp.ServiceRetry
import NostrPubsub.Fips.ClientOptions
import NostrPubsub.WireTcp.Changes
import NostrPubsub.WireTcp.InboundPeers
import NostrPubsub.WireTcp.PeerSlots
import NostrPubsub.WireTcp.QueueAccounting
import NostrPubsub.Fips.ProviderBehavior
import NostrPubsub.Fips.RecentEvents
import NostrPubsub.Fips.ReplayAnswers
import NostrPubsub.Runtime.Interests
import NostrPubsub.Sim.Incentives
import NostrPubsub.ToMathlib.Clearing
import NostrPubsub.Sim.Figures
import NostrPubsub.Sim.Conservation
import NostrPubsub.Reconcile.FrameLimit
import NostrPubsub.Reconcile.Account
import NostrPubsub.Reconcile.Truth
import NostrPubsub.Reconcile.Coverage
import NostrPubsub.Reconcile.Termination
import NostrPubsub.Reconcile.Exactness
import NostrPubsub.Reconcile.BrowserCodec
import NostrPubsub.Reconcile.BrowserStorage
import NostrPubsub.Reconcile.BrowserEngine
import NostrPubsub.Reconcile.BrowserLoop
import NostrPubsub.Reconcile.Interop
import NostrPubsub.Reconcile.Mixed
import NostrPubsub.Fips.Client
import NostrPubsub.Fips.ClientFrames
import NostrPubsub.Fips.ClientTransport
import NostrPubsub.Fips.ClientContract
import NostrPubsub.Fips.ClientSafety
import NostrPubsub.Fips.ClientNetwork
