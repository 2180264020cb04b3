import Deqs.Lib.Outcome
import Deqs.Lib.Lts
import Deqs.Lib.Lists
import Deqs.Lib.AssocMap
import Deqs.Lib.CrossRatio
import Deqs.Lib.OrdSet
import Deqs.Lib.PushEach
import Deqs.Lib.ParMap
import Deqs.Lib.Spread
import Deqs.Lib.Replay
import Deqs.Lib.Wide
import Deqs.Lib.Chunks
import Deqs.Lib.BigEndian
import Deqs.Lib.Tally
import Deqs.Lib.Rounding
import Deqs.Lib.Sampling
import Deqs.Lib.Correlation
import Deqs.Lib.Broadcast
import Deqs.Quote.Basic
import Deqs.Quote.Order
import Deqs.Quote.Cost
import Deqs.Book.InMemory
import Deqs.Book.Keyed
import Deqs.Book.Overlap
import Deqs.Book.Reference
import Deqs.Book.Row
import Deqs.Book.Blob
import Deqs.Book.Sqlite
import Deqs.Book.Mirror
import Deqs.Book.Recovery
import Deqs.Sync.Model
import Deqs.Sync.Staleness
import Deqs.Sync.Accounting
import Deqs.Sync.Stack
import Deqs.Sync.Durable
import Deqs.Sync.Shutdown
import Deqs.Sync.Restart
import Deqs.Sync.CatchUp
import Deqs.Api.Convert
import Deqs.P2P.EventLoop
import Deqs.P2P.Loop
import Deqs.P2P.Steps
import Deqs.P2P.Calls
import Deqs.P2P.Endings
import Deqs.P2P.Attended
import Deqs.P2P.Projection
import Deqs.Server.ClientService
import Deqs.Server.Requests
import Deqs.Server.Node
import Deqs.Server.RingAdmission
import Deqs.Server.Network
import Deqs.Server.PeerSync
import Deqs.Server.SyncHonest
import Deqs.Server.SyncComplete
import Deqs.Server.Insertion
import Deqs.Server.Mesh
import Deqs.Server.Tracing
import Deqs.Server.Meetings
import Deqs.Server.EventLoop
import Deqs.Server.Uptime
import Deqs.Server.Delivery
import Deqs.Server.Bus
import Deqs.Server.LiveUpdates
import Deqs.Server.Subscribers
import Deqs.Bot.Task
import Deqs.Bot.Tracking
import Deqs.Bot.CounterAmount
import Deqs.Bot.Ring
import Deqs.Bot.Stats
import Deqs.Bot.Atomicity
import Deqs.Bot.Receiving
import Deqs.Bot.Composition
import Deqs.Bot.Limits
import Deqs.Bot.Wallet
import Deqs.Bot.Scan
import Deqs.Bot.Startup
import Deqs.Bot.Life
import Deqs.Bot.Crash
import Deqs.Bot.Fulfilled
