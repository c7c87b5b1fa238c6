import IMServer.Base.ByteOrder
import IMServer.Base.Bytes
import IMServer.Base.CheckedInt
import IMServer.Base.Checkout
import IMServer.Base.Chunks
import IMServer.Base.Decimal
import IMServer.Base.Decoder
import IMServer.Base.Double
import IMServer.Base.FixedWidth
import IMServer.Base.Gregorian
import IMServer.Base.Holders
import IMServer.Base.Hundredths
import IMServer.Base.Interleaved
import IMServer.Base.KeyedSum
import IMServer.Base.Lines
import IMServer.Base.Monitor
import IMServer.Base.OrderedMap
import IMServer.Base.OrderedSet
import IMServer.Base.Ownership
import IMServer.Base.Positional
import IMServer.Base.Program
import IMServer.Base.Protobuf
import IMServer.Base.Run
import IMServer.Base.Runs
import IMServer.Base.Signals
import IMServer.Base.Sources
import IMServer.Base.Sql
import IMServer.Business.Accounting
import IMServer.Business.Accounts
import IMServer.Business.AtomicTransfers
import IMServer.Business.Atomicity
import IMServer.Business.Calls
import IMServer.Business.ConnectionSlots
import IMServer.Business.Conservation
import IMServer.Business.Frames
import IMServer.Business.GrabAnswers
import IMServer.Business.HostileRequests
import IMServer.Business.Interleaving
import IMServer.Business.LockClients
import IMServer.Business.LoginSession
import IMServer.Business.Machine
import IMServer.Business.Messages
import IMServer.Business.NullConnections
import IMServer.Business.Operations
import IMServer.Business.Outcomes
import IMServer.Business.Overspending
import IMServer.Business.PacketPhases
import IMServer.Business.RegisterAnswer
import IMServer.Business.Registration
import IMServer.Business.Sequential
import IMServer.Business.Serialization
import IMServer.Business.ShareRange
import IMServer.Business.Shares
import IMServer.Business.SqlStore
import IMServer.Business.SqlText
import IMServer.Business.Store
import IMServer.Cache.BulkRead
import IMServer.Cache.Contexts
import IMServer.Cache.Encoding
import IMServer.Cache.Pool
import IMServer.Client.Connector
import IMServer.Client.PacketExchange
import IMServer.Concurrency.Latch
import IMServer.Concurrency.PoolSignals
import IMServer.Concurrency.ThreadPool
import IMServer.Concurrency.ThreadStart
import IMServer.Config.ConfigFileReader
import IMServer.Config.LineTokens
import IMServer.Config.ReadConfig
import IMServer.Config.RollSize
import IMServer.Database.LinkPool
import IMServer.Database.Mysql
import IMServer.Database.ResultCursor
import IMServer.Logging.AsyncLogging
import IMServer.Logging.LogFile
import IMServer.Logging.LogStream
import IMServer.Logging.NumberFormat
import IMServer.Net.Buffer
import IMServer.Net.BufferFields
import IMServer.Net.BufferRun
import IMServer.Net.Codec
import IMServer.Net.CodecStream
import IMServer.Net.Dispatcher
import IMServer.Net.FrameBody
import IMServer.Net.FrameGrammar
import IMServer.Reactor.Acceptor
import IMServer.Reactor.Connection
import IMServer.Reactor.ConnectionTable
import IMServer.Reactor.GracefulShutdown
import IMServer.Reactor.InputBound
import IMServer.Reactor.LifeCycle
import IMServer.Reactor.LoopPool
import IMServer.Reactor.LoopQuit
import IMServer.Reactor.LoopThread
import IMServer.Reactor.MessageStream
import IMServer.Reactor.OutputStream
import IMServer.Reactor.PendingFunctors
import IMServer.Reactor.Poller
import IMServer.Reactor.TimerAlarm
import IMServer.Reactor.TimerFiring
import IMServer.Reactor.TimerOwnership
import IMServer.Reactor.TimerQueue
import IMServer.Server.Delivery
import IMServer.Server.Handlers
import IMServer.Server.IoThreads
import IMServer.Server.OfflineMessages
import IMServer.Server.OneThread
import IMServer.Server.Requests
import IMServer.Server.Routing
import IMServer.Time.Date
import IMServer.Time.Timestamp
