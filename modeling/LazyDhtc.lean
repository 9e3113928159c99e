import LazyDhtc.Lib.Transition
import LazyDhtc.Lib.GoMap
import LazyDhtc.DhtClient.RoutingTable
import LazyDhtc.DhtClient.Requests
import LazyDhtc.DhtClient.Client
import LazyDhtc.DhtClient.Sink
import LazyDhtc.DhtClient.SinkRuns
import LazyDhtc.DhtClient.Manager
import LazyDhtc.Cache.InfoHashCache
import LazyDhtc.Ui.Crawl
import LazyDhtc.Ui.CrawlShutdown
import LazyDhtc.Ui.CrawlCache
import LazyDhtc.Lib.Base64
import LazyDhtc.Lib.Json.Text
import LazyDhtc.Lib.Json.Number
import LazyDhtc.Lib.Json.Read
import LazyDhtc.Lib.Json.Decode
import LazyDhtc.Cluster.Wire
import LazyDhtc.Cluster.WorkerQueue
import LazyDhtc.Cluster.Flush
import LazyDhtc.Cluster.Delivery
import LazyDhtc.Cluster.InFlight
import LazyDhtc.Cluster.AckSafety
import LazyDhtc.Cluster.Restart
import LazyDhtc.Cluster.AtLeastOnce
import LazyDhtc.Db.Torrent
import LazyDhtc.Db.Query
import LazyDhtc.Db.Search
import LazyDhtc.Db.Watch
import LazyDhtc.Db.Ingest
import LazyDhtc.Db.Redelivery
import LazyDhtc.Db.Pruning
import LazyDhtc.Cluster.QueueLaws
import LazyDhtc.Cluster.Snapshot
import LazyDhtc.Cluster.WorkerShutdown
import LazyDhtc.Lib.Periodic
import LazyDhtc.Ui.Schedule
import LazyDhtc.Ui.CrawlerManager
import LazyDhtc.Ui.ManualOverride
import LazyDhtc.Ui.AutoStop
import LazyDhtc.Ui.Sessions
import LazyDhtc.Lib.Recency
import LazyDhtc.Lib.Hex
import LazyDhtc.Lib.Json.Indent
import LazyDhtc.Lib.IpText
import LazyDhtc.DhtClient.AddrText
import LazyDhtc.DhtClient.RoutingCache
import LazyDhtc.DhtClient.RoutingRestore
import LazyDhtc.DhtClient.Assembly
import LazyDhtc.DhtClient.Codec
import LazyDhtc.Cluster.Restore
import LazyDhtc.Cluster.Transfer
import LazyDhtc.DhtClient.Attribution
import LazyDhtc.Config.Configuration
import LazyDhtc.DhtClient.Attempts
import LazyDhtc.Ui.Metrics
import LazyDhtc.Config.Precedence
import LazyDhtc.Cluster.OneRecord
import LazyDhtc.DhtClient.Protocol
import LazyDhtc.DhtClient.IndexingService
import LazyDhtc.DhtClient.Overlays
import LazyDhtc.DhtClient.Closest
import LazyDhtc.Cluster.Drain
import LazyDhtc.DhtClient.Termination
import LazyDhtc.Cache.Expiry
import LazyDhtc.Ui.Saved
import LazyDhtc.Lib.Sha1
import LazyDhtc.DhtClient.HandlerCalls
import LazyDhtc.DhtClient.Token
import LazyDhtc.Db.Stats
import LazyDhtc.DhtClient.NodeInfos
import LazyDhtc.DhtClient.PeerStrings
import LazyDhtc.DhtClient.Handshake
import LazyDhtc.Db.Categories
import LazyDhtc.DhtClient.Download
import LazyDhtc.DhtClient.TotalSize
import LazyDhtc.Config.EarlyScan
import LazyDhtc.DhtClient.Transport
import LazyDhtc.DhtClient.Serving
import LazyDhtc.DhtClient.TransportRuns
import LazyDhtc.Cluster.PullLink
import LazyDhtc.Ui.Provenance
import LazyDhtc.Cluster.FlushLoop
import LazyDhtc.Cluster.Genuine
import LazyDhtc.Ui.Feed
import LazyDhtc.Db.Paging
import LazyDhtc.Ui.Pipeline
import LazyDhtc.Ui.Pause
import LazyDhtc.Db.Blacklist
