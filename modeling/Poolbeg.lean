import Poolbeg.Lts
import Poolbeg.Rpc.Types
import Poolbeg.Cache.Keys
import Poolbeg.Cache.Layer
import Poolbeg.Trim
import Poolbeg.Cache.Ttl
import Poolbeg.Cache.Invalidation
import Poolbeg.Cache.TtlText
import Poolbeg.Rpc.Parse
import Poolbeg.Rpc.Meaning
import Poolbeg.Rpc.Relay
import Poolbeg.Cache.HeadSet
import Poolbeg.Rpc.Coalescer
import Poolbeg.Rpc.InFlight
import Poolbeg.Rpc.SingleFlight
import Poolbeg.Rpc.Provenance
import Poolbeg.Rpc.Finality
import Poolbeg.Rpc.Resolution
import Poolbeg.Rpc.TaskMoves
import Poolbeg.Rpc.TaskInvariant
import Poolbeg.Rpc.ResponseId
import Poolbeg.Rpc.Batches
import Poolbeg.Rpc.CacheWrites
import Poolbeg.Rpc.NeverCache
import Poolbeg.Rpc.BatchDedup
import Poolbeg.Rpc.CacheHit
import Poolbeg.Rpc.RoundTrip
import Poolbeg.Rpc.Body
import Poolbeg.Rpc.Refusal
import Poolbeg.Rpc.RateLimitResponse
import Poolbeg.Sources
import Poolbeg.Upstream.Feed
import Poolbeg.Upstream.Reports
import Poolbeg.Upstream.Handover
import Poolbeg.Upstream.Client
import Poolbeg.Records
import Poolbeg.Upstream.HeadHistory
import Poolbeg.Upstream.Notifications
import Poolbeg.Upstream.Health
import Poolbeg.Ws.Subscription
import Poolbeg.Ws.Filter
import Poolbeg.Ws.Request
import Poolbeg.Ws.Connection
import Poolbeg.Ws.ResponseFirst
import Poolbeg.Ws.Counter
import Poolbeg.Ws.Transports
import Poolbeg.Ws.Refusal
import Poolbeg.Ws.Delivery
import Poolbeg.Ws.Unsubscribed
import Poolbeg.Ws.Limit
import Poolbeg.Upstream.Recovery
import Poolbeg.Upstream.Reorg
import Poolbeg.TokenBucket
import Poolbeg.Upstream.RateLimit
import Poolbeg.Upstream.Limiter
import Poolbeg.JsonText
import Poolbeg.Cache.KeySpace
import Poolbeg.Boundary
import Poolbeg.Rpc.Truncate
import Poolbeg.Rpc.ResponseLog
import Poolbeg.Rotation
import Poolbeg.Upstream.Strategy
import Poolbeg.Upstream.Manager
import Poolbeg.Upstream.Failover
import Poolbeg.Upstream.RoundRobin
import Poolbeg.RunningAverage
import Poolbeg.Upstream.Latency
import Poolbeg.Supplement
import Poolbeg.Upstream.PublicEndpoints
import Poolbeg.Countdown
import Poolbeg.Rpc.CoalescerRun
import Poolbeg.Rpc.Completion
import Poolbeg.Rpc.Answers
import Poolbeg.Rpc.Replies
import Poolbeg.Rpc.UpstreamCalls
import Poolbeg.Broadcast
import Poolbeg.Ws.Dispatcher
import Poolbeg.Scan
import Poolbeg.Config.Interpolation
import Poolbeg.Config.Validation
import Poolbeg.Deadlines
import Poolbeg.Rpc.Freshness
import Poolbeg.Server.Auth
import Poolbeg.Server.Gateway
import Poolbeg.Upstream.Return
import Poolbeg.Upstream.Accesses
import Poolbeg.Server.Routes
import Poolbeg.Backoff
import Poolbeg.Upstream.Polling
import Poolbeg.Upstream.Reconnect
import Poolbeg.Composition
import Poolbeg.Service.Steps
import Poolbeg.Service.Answers
import Poolbeg.Service.Completion
