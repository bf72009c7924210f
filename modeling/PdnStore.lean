import PdnStore.Lib.Maximal
import PdnStore.Lib.SortedMap
import PdnStore.Lib.TryFold
import PdnStore.Lib.LexOrder
import PdnStore.Lib.Runs
import PdnStore.Lib.Scan
import PdnStore.Lib.GroupMax
import PdnStore.Lib.Lru
import PdnStore.Lib.CommitLog
import PdnStore.Lib.Framing
import PdnStore.Lib.Varint
import PdnStore.Ranger.Basic
import PdnStore.Ranger.Process
import PdnStore.Ranger.Put
import PdnStore.Ranger.SimpleStore
import PdnStore.Ranger.Pivots
import PdnStore.Ranger.Split
import PdnStore.Ranger.Partition
import PdnStore.Ranger.Confine
import PdnStore.Ranger.Exchange
import PdnStore.Ranger.Round
import PdnStore.Ranger.Converge
import PdnStore.Ranger.LiveSync
import PdnStore.Ranger.Judge
import PdnStore.Session.Filter
import PdnStore.Session.Converge
import PdnStore.Session.Egress
import PdnStore.Sync.Entry
import PdnStore.Sync.Signing
import PdnStore.Store.Bounds
import PdnStore.Store.Tables
import PdnStore.Store.Instance
import PdnStore.Store.ByKey
import PdnStore.Store.Query
import PdnStore.Store.Select
import PdnStore.Store.Pages
import PdnStore.Store.Put
import PdnStore.Sync.Replica
import PdnStore.Sync.Heads
import PdnStore.Sync.HeadsCodec
import PdnStore.Sync.HeadsMerge
import PdnStore.Store.FsStore
import PdnStore.Store.Peers
import PdnStore.Store.MigrateRedb
import PdnStore.Store.Capability
import PdnStore.Store.Index
import PdnStore.Store.LatestPerKey
import PdnStore.Store.SortOrder
import PdnStore.Store.Remove
import PdnStore.Store.Latest
import PdnStore.Store.Migrations
import PdnStore.Actor.State
import PdnStore.Store.Transaction
import PdnStore.Actor.Books
import PdnStore.Actor.Handles
import PdnStore.Actor.Drop
import PdnStore.Actor.Sessions
import PdnStore.Actor.Process
import PdnStore.Sync.Egress
import PdnStore.Sync.Confine
import PdnStore.Sync.Reject
import PdnStore.Sync.Ingest
import PdnStore.Net.Accept
import PdnStore.Net.Codec
import PdnStore.Net.Initiate
import PdnStore.Net.Exchange
import PdnStore.Net.Sides
import PdnStore.Engine.State
import PdnStore.Engine.Gossip
import PdnStore.Engine.Resync
import PdnStore.Engine.Live
import PdnStore.Engine.QueuedHashes
import PdnStore.Engine.Downloads
import PdnStore.Engine.Wanted
import PdnStore.Engine.Ready
import PdnStore.Engine.Owner
import PdnStore.Engine.Release
import PdnStore.Engine.Protect
import PdnStore.Ranger.Gate
import PdnStore.Session.Gated
import PdnStore.Ranger.Pace
import PdnStore.Store.Durable
import PdnStore.Session.Network
import PdnStore.Store.Isolation
import PdnStore.Ranger.Cost
import PdnStore.Session.Cost
import PdnStore.Actor.Refine
import PdnStore.Sync.Events
import PdnStore.Session.Simulate
import PdnStore.Store.Ordinary
import PdnStore.Net.Wired
import PdnStore.Store.Network
