import StatsHouse.StringTopEviction
import StatsHouse.RoundTrip
import StatsHouse.Rejection
import StatsHouse.KeyTransfer
import StatsHouse.StaleTail
import StatsHouse.SamplerShares
import StatsHouse.SuperQueue
import StatsHouse.DuplicatedRouting
import StatsHouse.DiskDurability
import StatsHouse.ConveyorMemory
import StatsHouse.FloodLimits
import StatsHouse.AggregatorAcks
import StatsHouse.MappingsVersion
import StatsHouse.QueryFairness
import StatsHouse.TagNames
import StatsHouse.Raw64Tags
import StatsHouse.MergedRows
import StatsHouse.SeriesRows
import StatsHouse.PointsFresh
import StatsHouse.KeyCollisions
import StatsHouse.SeriesTimes
import StatsHouse.Comparisons
import StatsHouse.TCPFrames
import StatsHouse.MetadataEntities
import StatsHouse.MetricProto
import StatsHouse.MetricsStorage
import StatsHouse.InsertFlags
import StatsHouse.PromSeries
import StatsHouse.JournalBatch
import StatsHouse.PktBuffer
import StatsHouse.RateLimit
