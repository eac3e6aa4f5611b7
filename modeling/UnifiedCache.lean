import UnifiedCache.Dram.Wakeup
import UnifiedCache.Dram.Lookup
import UnifiedCache.Dram.Placement
import UnifiedCache.DramPool.ServerRuns
import UnifiedCache.DramPool.DumpHonesty
import UnifiedCache.DramPool.Shutdown
import UnifiedCache.Dram.ClientResources
import UnifiedCache.Health.BreakerRuns
import UnifiedCache.Compress.HonestCompletion
import UnifiedCache.Mooncake.ReaderSafety
import UnifiedCache.Posix.PublishedBlocks
import UnifiedCache.Posix.LookupLoops
import UnifiedCache.Posix.QuietBuffers
import UnifiedCache.Posix.GcCycle
import UnifiedCache.Cache.HonestLookup
import UnifiedCache.Hybrid.ExternalHits
import UnifiedCache.Hybrid.BlockTables
import UnifiedCache.Asu.Attribution
import UnifiedCache.Asu.BlockLayout
import UnifiedCache.Asu.ConnectionManager
import UnifiedCache.Dram.ResponseFormat
import UnifiedCache.Dram.StorageKeys
import UnifiedCache.Sglang.OffloadPartition
import UnifiedCache.Sglang.StoreAdapter
import UnifiedCache.Cache.DumpedBytes
import UnifiedCache.Cache.LookupForms
import UnifiedCache.Router.Ring
import UnifiedCache.ThreadPool
import UnifiedCache.P2p.PeerTasks
import UnifiedCache.P2p.Frames
import UnifiedCache.P2p.MemoryRegions
import UnifiedCache.Compress.Tunstall
import UnifiedCache.PcStore.ShareBuffer
import UnifiedCache.Pool.SmallFloat
