import Vectron.Placement.Determinism
import Vectron.Placement.Leader
import Vectron.Placement.SearchOnly
import Vectron.Placement.Bootstrap
import Vectron.Worker.Convergence
import Vectron.Worker.ProposeRetry
import Vectron.Segment.QueueOrder
import Vectron.Segment.Restart
import Vectron.Segment.Versions
import Vectron.Auth.Plans
import Vectron.Auth.Revocation
import Vectron.Gateway.Aggregate
import Vectron.Segment.Exact
import Vectron.Worker.BruteForce
import Vectron.Placement.Spread
import Vectron.Placement.MoveLimit
import Vectron.Placement.HeartbeatAnswer
import Vectron.Gateway.BatchTransparency
import Vectron.Gateway.ConnPool
import Vectron.Gateway.Limits
import Vectron.Gateway.ResolveCache
import Vectron.Gateway.Routing
import Vectron.Gateway.SearchKey
import Vectron.Gateway.TinyLFU
import Vectron.Gateway.Upsert
import Vectron.Worker.SearchKey
import Vectron.Worker.BatchAtomicity
import Vectron.Worker.RejectedSnapshot
import Vectron.Worker.WalReaders
import Vectron.Hnsw.VisitTracker
import Vectron.Hnsw.SmallSearch
import Vectron.Hnsw.Vectors
import Vectron.Worker.SnapshotChunks
import Vectron.Segment.Counters
import Vectron.Worker.HotTier
import Vectron.Segment.SealFailure
import Vectron.Client.HedgedReads
import Vectron.Client.Splitting
import Vectron.Hnsw.Unrolled
import Vectron.Hnsw.InPlace
import Vectron.Reranker.Saturation
import Vectron.Reranker.MemoryCache
import Vectron.Gateway.RateLimiter
import Vectron.Segment.Payload
